import LlmLab.Benchmarks.ServingRunner.Transport

/-!
# The transport loses nothing

What `write_tsv` writes is what the native `read_workload` reads: each line comes apart into its
seven columns, each column is read back as the value it was printed from, and the requests stand in
the order of their keys under the ids counted from one.
-/

namespace LlmLab.Benchmarks

open LlmLab.Serving

/-! ## Printed columns -/

theorem asciiBytes_toString_notMem {value : Int} {byte : UInt8} (other : byte ≠ 45)
    (noDigit : byte.toNat < 48) : byte ∉ asciiBytes (toString value).toList := by
  intro member
  obtain ⟨c, inside, rfl⟩ := List.mem_map.mp member
  rcases mem_toList_toString inside with rfl | digit
  · exact other rfl
  · obtain ⟨same, low, -⟩ := toNat_ofNat_of_isDigit digit
    omega

theorem encodeUtf8_toString (value : Int) :
    encodeUtf8 (text (toString value)) = some (asciiBytes (toString value).toList) := by
  refine encodeUtf8_ascii fun c member => ?_
  rcases mem_toList_toString member with rfl | digit
  · decide
  · obtain ⟨-, -, high⟩ := toNat_ofNat_of_isDigit digit
    omega

theorem parseInteger_toString {type : IntegerType} {value : Int} (name : String)
    (holds : type.Holds value) :
    Runner.parseInteger type (asciiBytes (toString value).toList) name = .ok value := by
  rw [Runner.parseInteger, readInteger_toString holds]

/-- A printed integer that is read is one of the type. -/
theorem parseInteger_toString_eq_ok {type : IntegerType} {value parsed : Int} {name : String} :
    Runner.parseInteger type (asciiBytes (toString value).toList) name = .ok parsed ↔
      type.Holds value ∧ parsed = value := by
  constructor
  · intro read
    by_cases holds : type.Holds value
    · rw [parseInteger_toString name holds] at read
      exact ⟨holds, (Except.ok.inj read).symm⟩
    · unfold Runner.parseInteger at read
      rw [readInteger_toString_eq, Option.filter_some, if_neg (by simpa using holds)] at read
      cases read
  · rintro ⟨holds, rfl⟩
    exact parseInteger_toString name holds

theorem parseToken_toString {token : Int} (holds : Runner.int32.Holds token) :
    Runner.parseToken (asciiBytes (toString token).toList) = .ok (Int32.ofInt token) := by
  rw [Runner.parseToken, parseInteger_toString _ holds]
  rfl

/-- Tokens that an `int32_t` holds. -/
def Int32Tokens (tokens : List Int) : Prop := ∀ token ∈ tokens, Runner.int32.Holds token

/-- The bytes of a token column. -/
def tokenBytes (tokens : List Int) : Bytes :=
  [Runner.comma].intercalate (tokens.map fun token => asciiBytes (toString token).toList)

theorem encodeUtf8_tokens (tokens : List Int) :
    encodeUtf8 ((text ",").intercalate (tokens.map fun token => text (toString token))) =
      some (tokenBytes tokens) := by
  refine encodeUtf8_intercalate_of rfl ?_
  rw [List.forall₂_map_left_iff, List.forall₂_map_right_iff, List.forall₂_same]
  exact fun token _ => encodeUtf8_toString token

theorem split_tokenBytes {tokens : List Int} (some : tokens ≠ []) :
    Runner.split (tokenBytes tokens) Runner.comma =
      tokens.map fun token => asciiBytes (toString token).toList := by
  refine List.splitOn_intercalate Runner.comma (fun part member => ?_)
    (mt List.map_eq_nil_iff.mp some)
  obtain ⟨token, -, rfl⟩ := List.mem_map.mp member
  exact asciiBytes_toString_notMem (by decide) (by decide)

theorem tokenBytes_ne_nil {tokens : List Int} (some : tokens ≠ []) : tokenBytes tokens ≠ [] := by
  intro nothing
  have parts := split_tokenBytes some
  rw [nothing] at parts
  obtain ⟨token, rest, rfl⟩ := List.exists_cons_of_ne_nil some
  have first : asciiBytes (toString token).toList = [] :=
    (List.cons.inj (parts.symm.trans rfl)).1
  exact toList_toString_ne_nil token (List.map_eq_nil_iff.mp first)

/-- No list of tokens looks like the dash of a counted prompt. -/
theorem tokenBytes_ne_dash {tokens : List Int} (holds : Int32Tokens tokens) :
    tokenBytes tokens ≠ [Runner.dash] := by
  intro same
  rcases tokens with _ | ⟨token, rest⟩
  · cases same
  · have parts := split_tokenBytes (List.cons_ne_nil token rest)
    rw [same] at parts
    have first : asciiBytes (toString token).toList = [Runner.dash] :=
      (List.cons.inj (parts.symm.trans rfl)).1
    have read := readInteger_toString (holds token List.mem_cons_self)
    rw [first] at read
    cases read

/-- The tokens come back one by one. -/
theorem parseTokens_tokenBytes {tokens : List Int} (holds : Int32Tokens tokens) :
    Runner.parseTokens (tokenBytes tokens) = .ok (tokens.map Int32.ofInt) := by
  unfold Runner.parseTokens
  split
  · next nothing =>
      rcases tokens with _ | ⟨token, rest⟩
      · rfl
      · exact absurd nothing (tokenBytes_ne_nil (List.cons_ne_nil token rest))
  · next some =>
      have nonempty : tokens ≠ [] := by
        rintro rfl
        exact some rfl
      rw [split_tokenBytes nonempty]
      exact mapM_map_eq_ok fun token member => parseToken_toString (holds token member)

theorem toInt_ofInt_tokens {tokens : List Int} (holds : Int32Tokens tokens) :
    (tokens.map Int32.ofInt).map Int32.toInt = tokens := by
  rw [List.map_map]
  refine (List.map_congr_left fun token member => ?_).trans (List.map_id tokens)
  have bounds := holds token member
  exact Int32.toInt_ofInt_of_le bounds.1 (Int.lt_of_le_sub_one bounds.2)

/-! ## Accepted records -/

namespace Record.Accepted

variable {record : Record}

theorem int_nonneg (accepted : record.Accepted) :
    0 ≤ record.int "arrival_time_us" ∧ 0 ≤ record.int "prompt_token_count" ∧
      0 ≤ record.int "max_new_tokens" := by
  have nonneg : ∀ name, (record.get name).IsInt 0 → 0 ≤ record.int name := by
    rintro name ⟨number, found, low⟩
    rw [Record.int, found]
    exact low
  exact ⟨nonneg _ accepted.arrival, nonneg _ accepted.promptCount, nonneg _ accepted.maxNewTokens⟩

theorem requestId_ne_nil (accepted : record.Accepted) : record.str "request_id" ≠ [] := by
  obtain ⟨id, found, nonempty⟩ := accepted.requestId
  rw [Record.str, found]
  exact nonempty

theorem workloadClass_ne_nil (accepted : record.Accepted) : record.str "workload_class" ≠ [] := by
  obtain ⟨name, listed, found⟩ := accepted.workloadClass
  rw [Record.str, found]
  rintro rfl
  exact absurd listed (by decide)

/-- The tokens of a record fit their type, and their number is the prompt length. -/
theorem tokens (accepted : record.Accepted) (present : record.contains "prompt_tokens" = true) :
    Int32Tokens (record.ints "prompt_tokens") ∧
      ((record.ints "prompt_tokens").length : Int) = record.int "prompt_token_count" := by
  obtain ⟨items, found, length, each⟩ := accepted.promptTokens present
  rw [Record.ints, found, Option.getD_some, List.length_map]
  refine ⟨fun token member => ?_, length⟩
  obtain ⟨item, listed, rfl⟩ := List.mem_map.mp member
  obtain ⟨number, number_eq, low, high⟩ := each item listed
  rw [number_eq]
  exact ⟨low, high⟩

end Record.Accepted

/-! ## One line -/

/-- The bytes of the token column. -/
def tokenColumn (record : Record) : Bytes :=
  if record.contains "prompt_tokens" then tokenBytes (record.ints "prompt_tokens")
  else [Runner.dash]

/-- The columns of a line, from the bytes of its two strings. -/
def columns (numbered : Record × Nat) (externalId workloadClass : Bytes) : List Bytes :=
  [asciiBytes (toString (numbered.2 : Int)).toList, externalId, workloadClass,
    asciiBytes (toString (numbered.1.int "arrival_time_us")).toList,
    asciiBytes (toString (numbered.1.int "prompt_token_count")).toList, tokenColumn numbered.1,
    asciiBytes (toString (numbered.1.int "max_new_tokens")).toList]

/-- A line of the file: it ends in a newline, has no other, and comes apart into its columns. -/
structure Line (numbered : Record × Nat) (body : Bytes) (externalId workloadClass : Bytes) :
    Prop where
  named : encodeUtf8 (numbered.1.str "request_id") = some externalId
  classed : encodeUtf8 (numbered.1.str "workload_class") = some workloadClass
  clean : Runner.newline ∉ body
  apart : Runner.split body Runner.tab = columns numbered externalId workloadClass

theorem encodeUtf8_tsvTokens (record : Record) :
    encodeUtf8 (tsvTokens record) = some (tokenColumn record) := by
  unfold tsvTokens tokenColumn
  split
  · exact encodeUtf8_tokens _
  · rfl

theorem encoded_eq_ok {t : Text} {bytes : Bytes} :
    encoded t = .ok bytes ↔ encodeUtf8 t = some bytes := by
  unfold encoded
  split
  · next none => simp [none]
  · next found some => rw [some, Except.ok.injEq, Option.some.injEq]

/-- A written line is the fields of its record with tabs between them. -/
theorem writeTsvLine_line {numbered : Record × Nat} {bytes : Bytes}
    (written : writeTsvLine numbered = .ok bytes) :
    ∃ body externalId workloadClass,
      bytes = body ++ [Runner.newline] ∧ Line numbered body externalId workloadClass := by
  unfold writeTsvLine at written
  obtain ⟨_, -, written⟩ := except_bind_eq_ok.mp written
  obtain ⟨_, checked, written⟩ := except_bind_eq_ok.mp written
  obtain ⟨body, ending, joined, last, rfl⟩ :=
    encodeUtf8_append.mp (encoded_eq_ok.mp written)
  obtain ⟨parts, each, rfl⟩ := encodeUtf8_intercalate rfl joined
  obtain rfl : [Runner.newline] = ending := Option.some.inj last
  -- A tab or newline byte in a part would be a control character of a field.
  have clean : ∀ part ∈ parts, ∀ byte : UInt8, byte.toNat < 0x80 →
      (∀ c : CodePoint, c.val = byte.toNat → isTsvControl c = true) → byte ∉ part := by
    intro part listed byte ascii control inside
    obtain ⟨field, among, encoded⟩ := exists_mem_of_forall₂ each listed
    obtain ⟨c, within, same⟩ := mem_of_mem_encodeUtf8 encoded ascii inside
    have found : field.any isTsvControl = true :=
      List.any_eq_true.mpr ⟨c, within, control c same⟩
    exact throwIf_eq_ok.mp checked (List.any_eq_true.mpr ⟨field, among, found⟩)
  have tabFree : ∀ part ∈ parts, Runner.tab ∉ part := fun part listed =>
    clean part listed Runner.tab (by decide) fun c same => by
      obtain rfl : c = codePoint '\t' := Fin.ext same
      rfl
  have newlineFree : ∀ part ∈ parts, Runner.newline ∉ part := fun part listed =>
    clean part listed Runner.newline (by decide) fun c same => by
      obtain rfl : c = codePoint '\n' := Fin.ext same
      rfl
  have apart : Runner.split ([Runner.tab].intercalate parts) Runner.tab = parts := by
    refine List.splitOn_intercalate Runner.tab tabFree ?_
    rintro rfl
    cases each
  have oneLine : Runner.newline ∉ [Runner.tab].intercalate parts := fun member => by
    rcases mem_intercalate member with between | ⟨part, listed, inside⟩
    · exact absurd between (by decide)
    · exact newlineFree part listed inside
  rcases each with _ | ⟨internalId, _ | ⟨named, _ | ⟨classed, _ | ⟨arrival, _ | ⟨promptCount,
    _ | ⟨promptTokens, _ | ⟨maxNewTokens, _ | _⟩⟩⟩⟩⟩⟩⟩
  obtain rfl := Option.some.inj ((encodeUtf8_toString _).symm.trans internalId)
  obtain rfl := Option.some.inj ((encodeUtf8_toString _).symm.trans arrival)
  obtain rfl := Option.some.inj ((encodeUtf8_toString _).symm.trans promptCount)
  obtain rfl := Option.some.inj ((encodeUtf8_tsvTokens _).symm.trans promptTokens)
  obtain rfl := Option.some.inj ((encodeUtf8_toString _).symm.trans maxNewTokens)
  exact ⟨_, _, _, rfl, named, classed, oneLine, apart⟩

/-! ## Reading the line -/

/-- The integers of a record lie in the ranges of the native fields. -/
structure Record.Representable (record : Record) : Prop where
  arrival : record.int "arrival_time_us" ≤ int64Max
  promptCount : record.int "prompt_token_count" ≤ uint64Max
  maxNewTokens : record.int "max_new_tokens" ≤ uint64Max

/-- The native request is the record's, under the given internal id. -/
structure Transported (numbered : Record × Nat) (input : Runner.InputRequest) : Prop where
  internalId : input.request.requestId = numbered.2
  externalId : encodeUtf8 (numbered.1.str "request_id") = some input.externalId
  workloadClass : encodeUtf8 (numbered.1.str "workload_class") = some input.workloadClass
  arrival : input.request.arrivalTimeUs = numbered.1.int "arrival_time_us"
  maxNewTokens : (input.request.maxNewTokens : Int) = numbered.1.int "max_new_tokens"
  promptLength : (input.request.promptLength : Int) = numbered.1.int "prompt_token_count"
  promptTokens : input.request.promptTokens?.map (fun tokens => tokens.map Int32.toInt) =
    if numbered.1.contains "prompt_tokens" then some (numbered.1.ints "prompt_tokens") else none
  pristine : input.request.Pristine

/-- The runner reads a line of `write_tsv` as the request of its record. -/
theorem readWorkloadLine_line {numbered : Record × Nat} {body externalId workloadClass : Bytes}
    {seen : List Runner.InputRequest} {lineNumber : Nat} (accepted : numbered.1.Accepted)
    (representable : numbered.1.Representable) (idFits : (numbered.2 : Int) ≤ uint64Max)
    (line : Line numbered body externalId workloadClass)
    (newId : numbered.2 ∉ seen.map fun other => other.request.requestId)
    (newName : externalId ∉ seen.map Runner.InputRequest.externalId) :
    ∃ input, Runner.readWorkloadLine seen (body, lineNumber) = .ok (seen ++ [input]) ∧
      Transported numbered input := by
  obtain ⟨arrival, promptCount, maxNewTokens⟩ := accepted.int_nonneg
  have named : externalId ≠ [] := fun empty =>
    accepted.requestId_ne_nil (encodeUtf8_eq_nil (line.named.trans (congrArg some empty)))
  have classed : workloadClass ≠ [] := fun empty =>
    accepted.workloadClass_ne_nil (encodeUtf8_eq_nil (line.classed.trans (congrArg some empty)))
  have low : Runner.int64.low ≤ numbered.1.int "arrival_time_us" :=
    Int.le_trans (by decide) arrival
  unfold Runner.readWorkloadLine
  simp only [line.apart, columns]
  rw [parseInteger_toString _ ⟨Int.natCast_nonneg _, idFits⟩,
    parseInteger_toString _ ⟨low, representable.arrival⟩,
    parseInteger_toString _ ⟨promptCount, representable.promptCount⟩,
    parseInteger_toString _ ⟨maxNewTokens, representable.maxNewTokens⟩]
  simp only [except_ok_bind, Int.toNat_natCast, Request.create_eq_ok arrival]
  rw [throwIf_of_not newId, throwIf_of_not (by simp [named, newName]), throwIf_of_not classed]
  simp only [except_ok_bind]
  by_cases present : numbered.1.contains "prompt_tokens" = true
  · -- The tokens of an exact prompt, counted as the record says.
    obtain ⟨holds, length⟩ := accepted.tokens present
    have column : tokenColumn numbered.1 = tokenBytes (numbered.1.ints "prompt_tokens") :=
      if_pos present
    rw [column, if_neg (tokenBytes_ne_dash holds), parseTokens_tokenBytes holds]
    simp only [except_ok_bind]
    rw [throwIf_of_not (by rw [List.length_map]; omega)]
    refine ⟨_, rfl, ?_⟩
    exact {
      internalId := rfl, externalId := line.named, workloadClass := line.classed, arrival := rfl
      maxNewTokens := Int.toNat_of_nonneg maxNewTokens
      promptLength := by
        change (((numbered.1.ints "prompt_tokens").map Int32.ofInt).length : Int) = _
        rw [List.length_map, length]
      promptTokens := by
        rw [if_pos present]
        exact congrArg some (toInt_ofInt_tokens holds)
      pristine := Request.initial_pristine _ _ _ _ }
  · have column : tokenColumn numbered.1 = [Runner.dash] := if_neg present
    rw [column, if_pos rfl]
    refine ⟨_, rfl, ?_⟩
    exact {
      internalId := rfl, externalId := line.named, workloadClass := line.classed, arrival := rfl
      maxNewTokens := Int.toNat_of_nonneg maxNewTokens
      promptLength := Int.toNat_of_nonneg promptCount
      promptTokens := (if_neg present).symm
      pristine := Request.initial_pristine _ _ _ _ }

/-- The integers of a line that is read lie in their ranges. -/
theorem representable_of_readWorkloadLine {numbered : Record × Nat}
    {body externalId workloadClass : Bytes} {seen next : List Runner.InputRequest}
    {lineNumber : Nat} (line : Line numbered body externalId workloadClass)
    (read : Runner.readWorkloadLine seen (body, lineNumber) = .ok next) :
    numbered.1.Representable ∧ (numbered.2 : Int) ≤ uint64Max := by
  unfold Runner.readWorkloadLine at read
  simp only [line.apart, columns] at read
  obtain ⟨_, id, read⟩ := except_bind_eq_ok.mp read
  obtain ⟨_, arrival, read⟩ := except_bind_eq_ok.mp read
  obtain ⟨_, promptCount, read⟩ := except_bind_eq_ok.mp read
  obtain ⟨_, maxNewTokens, -⟩ := except_bind_eq_ok.mp read
  exact ⟨⟨(parseInteger_toString_eq_ok.mp arrival).1.2,
    (parseInteger_toString_eq_ok.mp promptCount).1.2,
    (parseInteger_toString_eq_ok.mp maxNewTokens).1.2⟩, (parseInteger_toString_eq_ok.mp id).1.2⟩

/-! ## The whole file -/

/-- The lines of a file, read after those that are already there. -/
theorem readWorkloadLines_lines {numbered done : List (Record × Nat)} {bodies : List Bytes}
    {seen : List Runner.InputRequest} {lineNumber : Nat}
    (accepted : ∀ entry ∈ numbered, entry.1.Accepted)
    (representable : ∀ entry ∈ numbered, entry.1.Representable)
    (idFits : ∀ entry ∈ numbered, (entry.2 : Int) ≤ uint64Max)
    (lines : List.Forall₂ (fun entry body => ∃ externalId workloadClass,
      Line entry body externalId workloadClass) numbered bodies)
    (before : List.Forall₂ Transported done seen)
    (ids : ((done ++ numbered).map Prod.snd).Nodup)
    (names : ((done ++ numbered).map fun entry => entry.1.str "request_id").Nodup) :
    ∃ inputs, (bodies.zipIdx lineNumber).foldlM Runner.readWorkloadLine seen =
        .ok (seen ++ inputs) ∧ List.Forall₂ Transported numbered inputs := by
  induction lines generalizing done seen lineNumber with
  | nil => exact ⟨[], congrArg Except.ok (List.append_nil seen).symm, List.Forall₂.nil⟩
  | @cons entry body numbered bodies line lines ih =>
      obtain ⟨externalId, workloadClass, line⟩ := line
      have newId : entry.2 ∉ seen.map fun other => other.request.requestId := by
        intro member
        obtain ⟨other, listed, same⟩ := List.mem_map.mp member
        obtain ⟨earlier, inside, transported⟩ := exists_mem_of_forall₂ before listed
        rw [List.map_append, List.map_cons] at ids
        exact (List.nodup_append.mp ids).2.2 _ (List.mem_map_of_mem inside) _ List.mem_cons_self
          (transported.internalId.symm.trans same)
      have newName : externalId ∉ seen.map Runner.InputRequest.externalId := by
        intro member
        obtain ⟨other, listed, rfl⟩ := List.mem_map.mp member
        obtain ⟨earlier, inside, transported⟩ := exists_mem_of_forall₂ before listed
        rw [List.map_append, List.map_cons] at names
        exact (List.nodup_append.mp names).2.2 _ (List.mem_map_of_mem inside) _ List.mem_cons_self
          (encodeUtf8_injective transported.externalId line.named)
      obtain ⟨input, step, transported⟩ := readWorkloadLine_line (accepted entry List.mem_cons_self)
        (representable entry List.mem_cons_self) (idFits entry List.mem_cons_self) line newId newName
      have behind : List.Forall₂ Transported (done ++ [entry]) (seen ++ [input]) :=
        List.rel_append before (List.Forall₂.cons transported List.Forall₂.nil)
      obtain ⟨inputs, rest, all⟩ := ih (fun other member => accepted other (List.mem_cons_of_mem _ member))
        (fun other member => representable other (List.mem_cons_of_mem _ member))
        (fun other member => idFits other (List.mem_cons_of_mem _ member)) behind
        (by rw [List.append_assoc]; exact ids) (by rw [List.append_assoc]; exact names)
      refine ⟨input :: inputs, ?_, List.Forall₂.cons transported all⟩
      rw [List.zipIdx_cons, List.foldlM_cons, step, except_ok_bind, rest, List.append_assoc,
        List.singleton_append]

/-- Lines that are all read have integers in the native ranges. -/
theorem representable_of_lines {numbered : List (Record × Nat)} {bodies : List Bytes}
    {seen inputs : List Runner.InputRequest} {lineNumber : Nat}
    (lines : List.Forall₂ (fun entry body => ∃ externalId workloadClass,
      Line entry body externalId workloadClass) numbered bodies)
    (read : (bodies.zipIdx lineNumber).foldlM Runner.readWorkloadLine seen = .ok inputs) :
    ∀ entry ∈ numbered, entry.1.Representable ∧ (entry.2 : Int) ≤ uint64Max := by
  induction lines generalizing seen lineNumber with
  | nil => exact List.forall_mem_nil _
  | cons line lines ih =>
      obtain ⟨externalId, workloadClass, line⟩ := line
      rw [List.zipIdx_cons, List.foldlM_cons] at read
      obtain ⟨next, first, rest⟩ := except_bind_eq_ok.mp read
      exact List.forall_mem_cons.mpr ⟨representable_of_readWorkloadLine line first, ih rest⟩

/-- The bytes of the header line. -/
def headerBytes : Bytes := asciiBytes tsvHeader.toList

theorem newline_notMem_headerBytes : Runner.newline ∉ headerBytes := by
  decide +kernel

theorem encodeUtf8_header : encodeUtf8 (text tsvHeader) = some headerBytes := by
  have ascii : tsvHeader.toList.all (fun c => decide (c.toNat < 0x80)) = true := by
    decide +kernel
  exact encodeUtf8_ascii fun c member => of_decide_eq_true (List.all_eq_true.mp ascii c member)

theorem writeTsvLine_bodies {numbered : List (Record × Nat)} {lines : List Bytes}
    (each : List.Forall₂ (fun entry line => writeTsvLine entry = .ok line) numbered lines) :
    ∃ bodies, lines.flatten = terminated Runner.newline bodies ∧
      List.Forall₂ (fun entry body => ∃ externalId workloadClass,
        Line entry body externalId workloadClass) numbered bodies := by
  induction each with
  | nil => exact ⟨[], rfl, List.Forall₂.nil⟩
  | cons first rest ih =>
      obtain ⟨body, externalId, workloadClass, rfl, line⟩ := writeTsvLine_line first
      obtain ⟨bodies, same, all⟩ := ih
      refine ⟨body :: bodies, ?_, List.Forall₂.cons ⟨_, _, line⟩ all⟩
      rw [List.flatten_cons, same, terminated_cons, List.append_assoc, List.singleton_append]

/-- The lines of a written file. -/
theorem writeTsv_lines {records : List Record} {contents : Bytes}
    (written : writeTsv records = .ok contents) :
    ∃ bodies, contents = terminated Runner.newline (headerBytes :: bodies) ∧
      List.Forall₂ (fun entry body => ∃ externalId workloadClass,
        Line entry body externalId workloadClass) ((sortBy requestOrder records).zipIdx 1)
        bodies := by
  unfold writeTsv at written
  obtain ⟨header, headerWritten, written⟩ := except_bind_eq_ok.mp written
  obtain ⟨lines, linesWritten, written⟩ := except_bind_eq_ok.mp written
  obtain rfl := Except.ok.inj written
  obtain ⟨front, ending, front_eq, ending_eq, rfl⟩ :=
    encodeUtf8_append.mp (encoded_eq_ok.mp headerWritten)
  obtain rfl := Option.some.inj (encodeUtf8_header.symm.trans front_eq)
  obtain rfl : [Runner.newline] = ending := Option.some.inj ending_eq
  obtain ⟨bodies, same, all⟩ := writeTsvLine_bodies (forall₂_of_mapM linesWritten)
  exact ⟨bodies, by rw [same, terminated_cons, List.append_assoc, List.singleton_append], all⟩

/-- The native reader takes a written file line by line. -/
theorem readWorkload_lines {records : List Record} {contents : Bytes}
    (written : writeTsv records = .ok contents) :
    ∃ bodies, Runner.readWorkload contents =
        (bodies.zipIdx 2).foldlM Runner.readWorkloadLine [] ∧
      List.Forall₂ (fun entry body => ∃ externalId workloadClass,
        Line entry body externalId workloadClass) ((sortBy requestOrder records).zipIdx 1)
        bodies := by
  obtain ⟨bodies, rfl, lines⟩ := writeTsv_lines written
  have clean : ∀ line ∈ headerBytes :: bodies, ∀ byte ∈ line,
      decide (byte = Runner.newline) = false := by
    intro line listed byte inside
    refine decide_eq_false ?_
    rintro rfl
    rcases List.mem_cons.mp listed with rfl | listed
    · exact newline_notMem_headerBytes inside
    · obtain ⟨_, _, _, _, found⟩ := exists_mem_of_forall₂ lines listed
      exact found.clean inside
  refine ⟨bodies, ?_, lines⟩
  unfold Runner.readWorkload
  rw [linesBy_terminated clean (decide_eq_true rfl)]
  change (throwIf (headerBytes ≠ headerBytes) _ >>= fun _ => _) = _
  rw [throwIf_of_not (not_not.mpr rfl)]
  rfl

/-- The records of a workload are numbered and named apart. -/
theorem numbered_nodup {records : List Record}
    (distinct : (records.map fun record => record.str "request_id").Nodup) :
    (((sortBy requestOrder records).zipIdx 1).map Prod.snd).Nodup ∧
      (((sortBy requestOrder records).zipIdx 1).map
        fun entry : Record × Nat => entry.1.str "request_id").Nodup := by
  constructor
  · rw [List.zipIdx_map_snd]
    exact List.nodup_range' _
  · have byRecord := congrArg (List.map fun record : Record => record.str "request_id")
      (List.zipIdx_map_fst 1 (sortBy requestOrder records))
    rw [List.map_map] at byRecord
    exact byRecord ▸ ((sortBy_perm requestOrder records).map _).nodup_iff.mpr distinct

/-- Whatever is written for validated records with distinct ids and representable integers is read
as the same requests, in the order of their arrivals and ids and under the internal ids from one
on. -/
theorem readWorkload_writeTsv {records : List Record} {contents : Bytes}
    (accepted : ∀ record ∈ records,
      ∃ lineNumber, validateWorkloadRecord (.obj record) lineNumber = .ok record)
    (distinct : (records.map fun record => record.str "request_id").Nodup)
    (representable : ∀ record ∈ records, record.Representable)
    (countable : records.length ≤ uint64Max) (written : writeTsv records = .ok contents) :
    ∃ inputs, Runner.readWorkload contents = .ok inputs ∧
      List.Forall₂ Transported ((sortBy requestOrder records).zipIdx 1) inputs := by
  have valid : ∀ record ∈ records, record.Accepted := fun record member =>
    let ⟨_, result⟩ := accepted record member
    (validateWorkloadRecord_eq_ok.mp result).2
  have source : ∀ entry ∈ (sortBy requestOrder records).zipIdx 1, entry.1 ∈ records :=
    fun entry member => mem_sortBy.mp (List.fst_mem_of_mem_zipIdx member)
  obtain ⟨bodies, read, lines⟩ := readWorkload_lines written
  obtain ⟨ids, names⟩ := numbered_nodup distinct
  have countedUp : ∀ entry ∈ (sortBy requestOrder records).zipIdx 1,
      (entry.2 : Int) ≤ uint64Max := fun entry member => by
    have bound := List.snd_lt_add_of_mem_zipIdx member
    rw [length_sortBy] at bound
    omega
  obtain ⟨inputs, result, transported⟩ := @readWorkloadLines_lines _ [] bodies [] 2
    (fun entry member => valid _ (source entry member))
    (fun entry member => representable _ (source entry member)) countedUp lines
    List.Forall₂.nil ids names
  exact ⟨inputs, read.trans result, transported⟩

/-- A written file that the runner has read is the workload, with integers in the native ranges. -/
theorem transported_of_readWorkload {records : List Record} {contents : Bytes}
    {inputs : List Runner.InputRequest} (accepted : ∀ record ∈ records, record.Accepted)
    (distinct : (records.map fun record => record.str "request_id").Nodup)
    (written : writeTsv records = .ok contents)
    (taken : Runner.readWorkload contents = .ok inputs) :
    (∀ record ∈ records, record.Representable) ∧
      List.Forall₂ Transported ((sortBy requestOrder records).zipIdx 1) inputs := by
  obtain ⟨bodies, read, lines⟩ := readWorkload_lines written
  rw [read] at taken
  have ranges : ∀ entry ∈ (sortBy requestOrder records).zipIdx 1,
      entry.1.Representable ∧ (entry.2 : Int) ≤ uint64Max := representable_of_lines lines taken
  obtain ⟨ids, names⟩ := numbered_nodup distinct
  obtain ⟨inputs', result, transported⟩ := @readWorkloadLines_lines _ [] bodies [] 2
    (fun entry member => accepted _ (mem_sortBy.mp (List.fst_mem_of_mem_zipIdx member)))
    (fun entry member => (ranges entry member).1) (fun entry member => (ranges entry member).2)
    lines List.Forall₂.nil ids names
  obtain rfl : inputs = inputs' := Except.ok.inj (taken.symm.trans result)
  refine ⟨fun record member => ?_, transported⟩
  rw [← @mem_sortBy _ _ _ requestOrder, ← List.zipIdx_map_fst 1 (sortBy requestOrder records)] at member
  obtain ⟨entry, among, rfl⟩ := List.mem_map.mp member
  exact (ranges entry among).1

/-- A request with an exact prompt of one negative token, and one whose prompt is only counted. -/
def transportSample : List Record :=
  [sampleRecord (text "b") ++ [(text "prompt_tokens", .arr [.int (-5)])], sampleRecord (text "a")]

/-- Two requests, one of them with its exact tokens. -/
theorem readWorkload_writeTsv_sample :
    ∃ contents, writeTsv transportSample = .ok contents ∧
      ∃ inputs, Runner.readWorkload contents = .ok inputs ∧
        List.Forall₂ Transported ((sortBy requestOrder transportSample).zipIdx 1) inputs := by
  cases written : writeTsv transportSample with
  | error error =>
      have fine : (writeTsv transportSample).isOk = true := by
        decide +kernel
      rw [written] at fine
      cases fine
  | ok contents =>
      refine ⟨contents, rfl, readWorkload_writeTsv (List.forall_mem_cons.mpr ⟨⟨1, rfl⟩,
        List.forall_mem_singleton.mpr ⟨1, rfl⟩⟩) (by decide +kernel) (fun record member => ?_)
        (by decide) written⟩
      have small : ∀ record ∈ transportSample, record.int "arrival_time_us" ≤ int64Max ∧
          record.int "prompt_token_count" ≤ uint64Max ∧
            record.int "max_new_tokens" ≤ uint64Max := by
        decide +kernel
      obtain ⟨arrival, promptCount, maxNewTokens⟩ := small record member
      exact ⟨arrival, promptCount, maxNewTokens⟩

end LlmLab.Benchmarks
