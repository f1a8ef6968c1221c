import LlmLab.Lib.Machine
import LlmLab.Lib.OrdMap
import LlmLab.Serving.Request

/-!
# The reference allocator

The `ShadowModel` of the manager's tests: an allocator without a prefix cache that demands the
ceiling of the tokens over the block size, takes the lowest free ids, ticks one epoch for a
non-empty prompt and for an append, and resets what it frees.
-/

namespace LlmLab.Serving

structure ShadowRequest where
  blocks : List Nat := []
  tokens : Nat := 0

structure ShadowModel where
  totalBlocks : Nat
  blockSize : Nat
  freeIds : OrdSet Nat
  requests : OrdMap RequestId ShadowRequest
  validTokens : Nat → Nat
  epochs : Nat → Nat
  represented : Nat
  failures : Nat
  epoch : Nat
  peak : Nat

/-- The cases in which the tests expect a call to throw. -/
inductive ShadowRefusal where
  | duplicate
  | insufficient
  | unknown
deriving DecidableEq, Repr

namespace ShadowModel

/-- `make_shadow`. -/
def make (blocks blockSize : Nat) : ShadowModel where
  totalBlocks := blocks
  blockSize := blockSize
  freeIds := OrdSet.empty.insertAll (List.range blocks)
  requests := OrdMap.empty
  validTokens _ := 0
  epochs _ := 0
  represented := 0
  failures := 0
  epoch := 0
  peak := 0

/-- `shadow_required`. -/
def required (model : ShadowModel) (tokens : Nat) : Nat :=
  if tokens = 0 then 0
  else tokens / model.blockSize + if tokens % model.blockSize ≠ 0 then 1 else 0

/-- The peak after an allocation. -/
def updatePeak (model : ShadowModel) : ShadowModel :=
  { model with peak := max model.peak (model.totalBlocks - model.freeIds.size) }

/-- The loop body of `shadow_allocate`: the lowest free block takes the `index`-th part. -/
def takeBlock (tokens : Nat) (state : ShadowModel × List Nat) (index : Nat) :
    ShadowModel × List Nat :=
  match state.1.freeIds.elems.head? with
  | none => state
  | some blockId =>
      ({ state.1 with
          freeIds := state.1.freeIds.erase blockId
          validTokens := Function.update state.1.validTokens blockId
            (min state.1.blockSize (tokens - index * state.1.blockSize))
          epochs := Function.update state.1.epochs blockId state.1.epoch },
        state.2 ++ [blockId])

/-- `shadow_allocate`. -/
def allocate (model : ShadowModel) (id : RequestId) (tokens : Nat) :
    Option ShadowRefusal × ShadowModel :=
  if model.requests.contains id then (some .duplicate, model)
  else
    let required := model.required tokens
    if required > model.freeIds.size then
      (some .insufficient, { model with failures := model.failures + 1 })
    else
      let ticked := { model with epoch := if required ≠ 0 then model.epoch + 1 else model.epoch }
      let (taken, blocks) := (List.range required).foldl (takeBlock tokens) (ticked, [])
      (none, updatePeak { taken with
        represented := taken.represented + tokens
        requests := taken.requests.insert id { blocks, tokens } })

/-- Whether a request's next token needs a new block. -/
def NeedsBlock (model : ShadowModel) (request : ShadowRequest) : Prop :=
  ∀ last, request.blocks.getLast? = some last → model.validTokens last = model.blockSize

instance (model : ShadowModel) (request : ShadowRequest) : Decidable (model.NeedsBlock request) :=
  decidable_of_iff ((request.blocks.getLast?.all fun last =>
    model.validTokens last = model.blockSize) = true)
    (by cases last : request.blocks.getLast? <;> simp [NeedsBlock, last])

/-- `shadow_append`. -/
def append (model : ShadowModel) (id : RequestId) : Option ShadowRefusal × ShadowModel :=
  match model.requests.find? id with
  | none => (some .unknown, model)
  | some request =>
      let epoch := model.epoch + 1
      if model.NeedsBlock request then
        match model.freeIds.elems.head? with
        | none => (some .insufficient, { model with failures := model.failures + 1 })
        | some blockId =>
            (none, updatePeak { model with
              epoch
              freeIds := model.freeIds.erase blockId
              validTokens := Function.update model.validTokens blockId 1
              epochs := Function.update model.epochs blockId epoch
              requests := model.requests.insert id
                { blocks := request.blocks ++ [blockId], tokens := request.tokens + 1 }
              represented := model.represented + 1 })
      else
        let blockId := request.blocks.getLastD 0
        (none, updatePeak { model with
          epoch
          validTokens := Function.update model.validTokens blockId (model.validTokens blockId + 1)
          epochs := Function.update model.epochs blockId epoch
          requests := model.requests.insert id { request with tokens := request.tokens + 1 }
          represented := model.represented + 1 })

/-- `shadow_release`. -/
def release (model : ShadowModel) (id : RequestId) : Option ShadowRefusal × ShadowModel :=
  match model.requests.find? id with
  | none => (some .unknown, model)
  | some request =>
      (none, { model with
        freeIds := model.freeIds.insertAll request.blocks
        validTokens := fun x => if x ∈ request.blocks then 0 else model.validTokens x
        epochs := fun x => if x ∈ request.blocks then 0 else model.epochs x
        represented := model.represented - request.tokens
        requests := model.requests.erase id })

/-! ## Taking the lowest blocks -/

variable {model : ShadowModel} {tokens : Nat}

/-- The loop takes the first free ids in order. -/
theorem takeBlocks (model : ShadowModel) (tokens : Nat) {count : Nat}
    (enough : count ≤ model.freeIds.size) :
    (List.range count).foldl (takeBlock tokens) (model, []) =
      ({ model with
          freeIds := ⟨model.freeIds.elems.drop count, model.freeIds.sorted.drop⟩
          validTokens := fun x => if x ∈ model.freeIds.elems.take count then
            min model.blockSize (tokens - model.freeIds.elems.idxOf x * model.blockSize)
            else model.validTokens x
          epochs := fun x => if x ∈ model.freeIds.elems.take count then model.epoch
            else model.epochs x },
        model.freeIds.elems.take count) := by
  induction count with
  | zero => simp
  | succ count ih =>
      have inside : count < model.freeIds.elems.length := enough
      rw [List.range_succ, List.foldl_append, ih (Nat.le_of_succ_le enough), List.foldl_cons,
        List.foldl_nil]
      have first : (model.freeIds.elems.drop count).head? = some model.freeIds.elems[count] := by
        rw [List.head?_drop, List.getElem?_eq_getElem inside]
      have rest : (model.freeIds.elems.drop count) =
          model.freeIds.elems[count] :: model.freeIds.elems.drop (count + 1) :=
        List.drop_eq_getElem_cons inside
      have position : model.freeIds.elems.idxOf model.freeIds.elems[count] = count :=
        model.freeIds.nodup.idxOf_getElem _ inside
      unfold takeBlock
      simp only [first]
      refine Prod.ext ?_ ?_
      · have taken : ∀ x, x ∈ model.freeIds.elems.take (count + 1) ↔
            x = model.freeIds.elems[count] ∨ x ∈ model.freeIds.elems.take count := fun x => by
          rw [List.take_add_one, List.getElem?_eq_getElem inside, List.mem_append,
            Option.mem_toList, Option.some.injEq, or_comm,
            @eq_comm _ model.freeIds.elems[count]]
        have erased := @OrdSet.erase_head _ _ ⟨_, model.freeIds.sorted.drop⟩ _ _
          model.freeIds.sorted.drop rest
        dsimp only
        rw [erased]
        congr 1
        · funext x
          by_cases same : x = model.freeIds.elems[count]
          · subst same
            simp [taken, position]
          · simp [taken, same]
        · funext x
          by_cases same : x = model.freeIds.elems[count]
          · subst same
            simp [taken]
          · simp [taken, same]
      · dsimp only
        rw [List.take_add_one, List.getElem?_eq_getElem inside]
        rfl

/-- What an accepted prompt leaves behind. -/
theorem allocate_eq {id : RequestId} (unknown : model.requests.find? id = none)
    (enough : model.required tokens ≤ model.freeIds.size) :
    model.allocate id tokens = (none, updatePeak { model with
      epoch := if model.required tokens ≠ 0 then model.epoch + 1 else model.epoch
      freeIds := ⟨model.freeIds.elems.drop (model.required tokens), model.freeIds.sorted.drop⟩
      validTokens := fun x => if x ∈ model.freeIds.elems.take (model.required tokens) then
        min model.blockSize (tokens - model.freeIds.elems.idxOf x * model.blockSize)
        else model.validTokens x
      epochs := fun x => if x ∈ model.freeIds.elems.take (model.required tokens) then
        (if model.required tokens ≠ 0 then model.epoch + 1 else model.epoch) else model.epochs x
      represented := model.represented + tokens
      requests := model.requests.insert id
        { blocks := model.freeIds.elems.take (model.required tokens), tokens } }) := by
  have taken := takeBlocks { model with
    epoch := if model.required tokens ≠ 0 then model.epoch + 1 else model.epoch } tokens enough
  unfold allocate
  rw [if_neg (by simp [OrdMap.contains_eq_false_iff.mpr unknown])]
  dsimp only
  rw [if_neg (not_lt.mpr enough)]
  simp only [taken]

end ShadowModel

end LlmLab.Serving
