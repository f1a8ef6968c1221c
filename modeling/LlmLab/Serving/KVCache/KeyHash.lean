import LlmLab.Lib.Encoding
import LlmLab.Lib.HashChain
import LlmLab.Serving.KVCache.Valid

/-!
# Key hashing

`stable_token_block_hash` is FNV-1a over an encoding of the key material: the fields in order,
each after its tag, the variable ones after their lengths.  The encoding determines the
material, and FNV-1a separates any two encodings that differ in one byte, since each of its steps
is a bijection of the state and keeps different bytes apart.
-/

namespace LlmLab.Serving

open LlmLab.Encoding LlmLab.HashChain

/-! ## The encoding -/

/-- The bytes of a string, after their number. -/
def encodeString (value : Bytes) : List UInt8 :=
  littleEndian 8 value.length ++ value.flatMap fun byte => [byte]

/-- The two's-complement bits of a token. -/
def encodeToken (token : Token) : List UInt8 := littleEndian 4 token.toUInt32.toNat

/-- The tokens, after their number. -/
def encodeTokens (tokens : List Token) : List UInt8 :=
  littleEndian 8 tokens.length ++ tokens.flatMap encodeToken

/-- What `stable_token_block_hash` feeds to its hash. -/
def encodeKey (key : TokenBlockKey) : List UInt8 :=
  ([1] ++ littleEndian 8 key.parentHash.toNat) ++ (([2] ++ encodeString key.modelNamespace) ++
    (([3] ++ encodeString key.cacheSalt) ++ ([4] ++ encodeTokens key.tokenIds)))

/-- The lengths of a key's parts are `size_t` values. -/
structure TokenBlockKey.Sized (key : TokenBlockKey) : Prop where
  modelNamespace : key.modelNamespace.length ≤ sizeMax
  cacheSalt : key.cacheSalt.length ≤ sizeMax
  tokenIds : key.tokenIds.length ≤ sizeMax

/-! ### The hash is a fold over it -/

variable {hash : UInt64}

theorem fnvU64_eq (value : UInt64) :
    fnvU64 hash value = digest fnvByte hash (littleEndian 8 value.toNat) := by
  have bytes : littleEndian 8 value.toNat =
      (List.range 8).map fun i => (value >>> (8 * i.toUInt64)).toUInt8 := by
    apply List.map_congr_left
    intro i i_in
    have shift : ∀ i < 8, (8 * i.toUInt64).toNat % 64 = 8 * i := by decide
    apply UInt8.toNat_inj.mp
    rw [UInt8.toNat_ofNat', UInt64.toNat_toUInt8, UInt64.toNat_shiftRight,
      shift i (List.mem_range.mp i_in)]
  rw [bytes, fnvU64, digest, List.foldl_map]

theorem fnvToken_eq (token : Token) :
    fnvToken hash token = digest fnvByte hash (encodeToken token) := by
  have bytes : encodeToken token =
      (List.range 4).map fun i => (token.toUInt32 >>> (8 * i.toUInt32)).toUInt8 := by
    apply List.map_congr_left
    intro i i_in
    have shift : ∀ i < 4, (8 * i.toUInt32).toNat % 32 = 8 * i := by decide
    apply UInt8.toNat_inj.mp
    rw [UInt8.toNat_ofNat', UInt32.toNat_toUInt8, UInt32.toNat_shiftRight,
      shift i (List.mem_range.mp i_in)]
  rw [bytes, fnvToken, digest, List.foldl_map]

theorem toNat_length {α : Type} (items : List α) :
    littleEndian 8 items.length.toUInt64.toNat = littleEndian 8 items.length := by
  rw [Nat.toUInt64_eq, UInt64.toNat_ofNat']
  exact littleEndian_mod 8 items.length

theorem fnvString_eq (value : Bytes) :
    fnvString hash value = digest fnvByte hash (encodeString value) := by
  rw [fnvString, fnvU64_eq, toNat_length, encodeString, digest_append, List.flatMap_singleton']
  rfl

theorem fnvTokens_eq (tokens : List Token) :
    tokens.foldl fnvToken hash = digest fnvByte hash (tokens.flatMap encodeToken) := by
  induction tokens generalizing hash with
  | nil => rfl
  | cons token tokens ih =>
      rw [List.foldl_cons, ih, fnvToken_eq, List.flatMap_cons, digest_append]

theorem stableTokenBlockHash_eq (key : TokenBlockKey) :
    stableTokenBlockHash key = digest fnvByte prefixCacheRootHash (encodeKey key) := by
  simp only [stableTokenBlockHash, fnvString_eq, fnvU64_eq, fnvTokens_eq, toNat_length,
    encodeKey, encodeTokens, digest_append]
  rfl

/-! ### It determines the key material -/

/-- A length is read back from its eight bytes. -/
theorem selfDelimiting_length : SelfDelimiting (· ≤ sizeMax) (littleEndian 8) :=
  (selfDelimiting_littleEndian 8).mono fun length within => by
    unfold sizeMax at within
    omega

theorem selfDelimiting_encodeString :
    SelfDelimiting (fun value : Bytes => value.length ≤ sizeMax) encodeString :=
  selfDelimiting_length.counted selfDelimiting_singleton

theorem selfDelimiting_encodeToken : SelfDelimiting (fun _ => True) encodeToken := by
  apply selfDelimiting_of_width fun token => length_littleEndian 4 _
  intro a b _ _ same
  have bits : a.toUInt32 = b.toUInt32 :=
    UInt32.toNat_inj.mp (littleEndian_injective a.toUInt32.toNat_lt b.toUInt32.toNat_lt same)
  exact congrArg UInt32.toInt32 bits

theorem selfDelimiting_encodeTokens :
    SelfDelimiting (fun tokens : List Token => tokens.length ≤ sizeMax) encodeTokens :=
  selfDelimiting_length.counted selfDelimiting_encodeToken

/-- The encoding determines the material, and nothing else. -/
theorem encodeKey_eq_iff {a b : TokenBlockKey} (a_sized : a.Sized) (b_sized : b.Sized) :
    encodeKey a = encodeKey b ↔ exactKeyMaterialEqual a b = true := by
  constructor
  · intro same
    have code := ((selfDelimiting_littleEndian 8).tagged [1]).pair
      ((selfDelimiting_encodeString.tagged [2]).pair
        ((selfDelimiting_encodeString.tagged [3]).pair (selfDelimiting_encodeTokens.tagged [4])))
    have parts : (a.parentHash.toNat, a.modelNamespace, a.cacheSalt, a.tokenIds) =
        (b.parentHash.toNat, b.modelNamespace, b.cacheSalt, b.tokenIds) := code.injective
      ⟨a.parentHash.toNat_lt, a_sized.modelNamespace, a_sized.cacheSalt, a_sized.tokenIds⟩
      ⟨b.parentHash.toNat_lt, b_sized.modelNamespace, b_sized.cacheSalt, b_sized.tokenIds⟩ same
    simp only [Prod.mk.injEq] at parts
    obtain ⟨parents, namespaces, salts, tokens⟩ := parts
    simp [exactKeyMaterialEqual, UInt64.toNat_inj.mp parents, namespaces, salts, tokens]
  · intro material
    simp only [exactKeyMaterialEqual, Bool.and_eq_true, decide_eq_true_eq] at material
    obtain ⟨⟨⟨parents, tokens⟩, namespaces⟩, salts⟩ := material
    rw [encodeKey, encodeKey, parents, tokens, namespaces, salts]

/-! ## FNV-1a -/

/-- The multiplier is odd, so that multiplying by it can be undone. -/
theorem fnvPrime_inverse (state : UInt64) :
    state * 1099511628211 * 0xce965057aff6957b = state := by
  have inverse : (1099511628211 : UInt64) * 0xce965057aff6957b = 1 := by decide
  rw [UInt64.mul_assoc, inverse, UInt64.mul_one]

/-- Each step of FNV-1a is a bijection of the state and keeps different bytes apart. -/
theorem reversible_fnvByte : Reversible fnvByte where
  state byte state state' same := by
    have masked := congrArg (· * (0xce965057aff6957b : UInt64)) same
    simp only [fnvByte, fnvPrime_inverse] at masked
    exact (UInt64.xor_left_inj _).mp masked
  block state byte byte' same := by
    have masked := congrArg (· * (0xce965057aff6957b : UInt64)) same
    simp only [fnvByte, fnvPrime_inverse] at masked
    exact UInt8.toUInt64_inj.mp ((UInt64.xor_right_inj _).mp masked)

/-- The hash of a key is an FNV-1a fold over an encoding that determines its material, and keys
whose encodings differ in one byte have different hashes. -/
theorem stableTokenBlockHash_encodes :
    (∀ key, stableTokenBlockHash key = (encodeKey key).foldl fnvByte prefixCacheRootHash) ∧
    (∀ a b : TokenBlockKey, a.Sized → b.Sized →
      (encodeKey a = encodeKey b ↔ exactKeyMaterialEqual a b = true)) ∧
    (∀ a b, OneApart (encodeKey a) (encodeKey b) →
      stableTokenBlockHash a ≠ stableTokenBlockHash b) := by
  constructor
  · exact stableTokenBlockHash_eq
  constructor
  · intro a b a_sized b_sized
    exact encodeKey_eq_iff a_sized b_sized
  · intro a b apart
    rw [stableTokenBlockHash_eq, stableTokenBlockHash_eq]
    exact reversible_fnvByte.digest_ne apart

/-- The key of the documented known vector, but for its tokens. -/
def knownKey (tokens : List Token) : TokenBlockKey :=
  ⟨prefixCacheRootHash, tokens, [109, 111, 100, 101, 108], [115, 97, 108, 116], 0⟩

/-- Two keys that differ in one byte of their last token. -/
theorem stableTokenBlockHash_encodes_known :
    encodeKey (knownKey [10]) ≠ encodeKey (knownKey [11]) ∧
    stableTokenBlockHash (knownKey [10]) ≠ stableTokenBlockHash (knownKey [11]) := by
  constructor
  · intro same
    exact absurd ((stableTokenBlockHash_encodes.2.1 (knownKey [10]) (knownKey [11])
      ⟨by decide, by decide, by decide⟩ ⟨by decide, by decide, by decide⟩).mp same) (by decide)
  · have apart : OneApart (encodeKey (knownKey [10])) (encodeKey (knownKey [11])) := by
      have ends : encodeKey (knownKey [10]) =
          (encodeKey (knownKey [])).take 37 ++ [1, 0, 0, 0, 0, 0, 0, 0] ++ 10 :: [0, 0, 0] := by
        decide +kernel
      have ends' : encodeKey (knownKey [11]) =
          (encodeKey (knownKey [])).take 37 ++ [1, 0, 0, 0, 0, 0, 0, 0] ++ 11 :: [0, 0, 0] := by
        decide +kernel
      rw [ends, ends']
      exact OneApart.of_split (by decide)
    exact stableTokenBlockHash_encodes.2.2 _ _ apart

example : stableTokenBlockHash (knownKey [10, 11, 12, 13]) = 0xd5392f858a10326e := by
  decide +kernel

end LlmLab.Serving
