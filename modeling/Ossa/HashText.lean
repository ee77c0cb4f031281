import Ossa.Collections
import Ossa.Loop
import Ossa.Radix

/-!
The text of a store id: `Display` and `FromStr` of the `Sha256Hash` of `util.rs`.

The crates that read and write bytes as text are parameters. What is printed is parsed back.
The converse holds of a text unless its hexadecimal digits follow two bytes that are not `0x`,
its third byte is not the first of a character where two bytes are cut off, or it is the
base58 text of fewer bytes than a hash has.
-/

namespace Ossa.Util

open Ossa.Loop Ossa.Collections

/-- A `str`, by the characters that its bytes encode. -/
abbrev Str := List Char

namespace Str

/-- The number of bytes. -/
def len (s : Str) : ℕ := (s.map Char.utf8Size).sum

/-- `&s[n..]` -/
def sliceFrom : ℕ → Str → Exec Str
  | 0, s => .ok s
  | _ + 1, [] => .error .outOfBounds
  | n + 1, c :: s =>
    if c.utf8Size ≤ n + 1 then sliceFrom (n + 1 - c.utf8Size) s
    else .error (.panic "byte index is not a char boundary")

@[simp] lemma len_nil : len [] = 0 := rfl

@[simp] lemma len_cons (c : Char) (s : Str) : len (c :: s) = c.utf8Size + len s := rfl

@[simp] lemma len_append (s t : Str) : len (s ++ t) = len s + len t := by
  simp [len]

/-- A slice from byte `n` is what follows `n` bytes of whole characters. -/
lemma sliceFrom_eq_ok {n : ℕ} {s t : Str} :
    sliceFrom n s = .ok t ↔ ∃ head, s = head ++ t ∧ head.len = n := by
  induction s generalizing n with
  | nil =>
    cases n with
    | zero => simp [sliceFrom]
    | succ n => simp [sliceFrom]
  | cons c s ih =>
    cases n with
    | zero =>
      rw [sliceFrom]
      constructor
      · rintro ⟨⟩
        exact ⟨[], rfl, rfl⟩
      · rintro ⟨head, hs, hn⟩
        cases head with
        | nil => rw [hs]; rfl
        | cons d head => exact absurd hn (by have := d.utf8Size_pos; simp; omega)
    | succ n =>
      rw [sliceFrom]
      have hpos := c.utf8Size_pos
      split_ifs with hc
      · rw [ih]
        constructor
        · rintro ⟨head, rfl, hn⟩
          exact ⟨c :: head, rfl, by rw [len_cons, hn]; omega⟩
        · rintro ⟨head, hs, hn⟩
          cases head with
          | nil => cases hn
          | cons d head =>
            obtain ⟨rfl, rfl⟩ := List.cons.inj hs
            rw [len_cons] at hn
            exact ⟨head, rfl, by omega⟩
      · refine iff_of_false nofun ?_
        rintro ⟨head, hs, hn⟩
        cases head with
        | nil => cases hn
        | cons d head =>
          obtain ⟨rfl, rfl⟩ := List.cons.inj hs
          rw [len_cons] at hn
          omega

end Str

/-! ### Hexadecimal digits -/

def lowerHex : Str := "0123456789abcdef".toList

def upperHex : Str := "0123456789ABCDEF".toList

/-- The character is a hexadecimal digit of the value, in lower or in upper case. -/
def IsHexDigit (c : Char) (v : ℕ) : Prop := lowerHex[v]? = some c ∨ upperHex[v]? = some c

/-- The text is the hexadecimal digits of the bytes. -/
def IsHex : Str → List UInt8 → Prop
  | [], [] => True
  | hi :: lo :: s, b :: bytes =>
    IsHexDigit hi (b.toNat / 16) ∧ IsHexDigit lo (b.toNat % 16) ∧ IsHex s bytes
  | _, _ => False

lemma IsHexDigit.utf8Size {c : Char} {v : ℕ} (h : IsHexDigit c v) : c.utf8Size = 1 := by
  have hsize : ((lowerHex ++ upperHex).all fun c => c.utf8Size == 1) = true := by decide
  refine eq_of_beq (List.all_eq_true.mp hsize c (List.mem_append.mpr (h.imp ?_ ?_))) <;>
    exact List.mem_of_getElem?

lemma IsHex.len_eq {s : Str} {bytes : List UInt8} (h : IsHex s bytes) :
    s.len = 2 * bytes.length := by
  induction s, bytes using IsHex.induct with
  | case1 => rfl
  | case2 hi lo s b bytes ih =>
    obtain ⟨hhi, hlo, h⟩ := h
    rw [Str.len_cons, Str.len_cons, hhi.utf8Size, hlo.utf8Size, ih h, List.length_cons]
    omega
  | case3 s bytes hnil hcons =>
    rw [IsHex.eq_3 s bytes hnil hcons] at h
    exact h.elim

/-! ### The parser -/

@[ext]
structure Sha256Hash where
  bytes : Vector UInt8 32
  deriving DecidableEq

inductive Sha256HashParseError (Base58Error FromHexError : Type)
  | base58 (e : Base58Error)
  | hex (e : FromHexError)

/-- What is used of the crates `bs58` and `hex`. -/
structure TextCrates (Base58Error FromHexError : Type) where
  /-- `bs58::encode(bytes).into_string()` -/
  encode : List UInt8 → Str
  /-- `bs58::decode(s).onto(&mut buffer)` -/
  onto {n : ℕ} : Str → Vector UInt8 n → Except Base58Error (Vector UInt8 n)
  /-- `hex::decode_to_slice(s, &mut buffer)` -/
  decodeToSlice {n : ℕ} : Str → Vector UInt8 n → Except FromHexError (Vector UInt8 n)

section Parser

variable {B F : Type} (crates : TextCrates B F)

/-- What the crates document. -/
structure TextCrates.Lawful : Prop where
  /-- The text of some bytes is decoded to the front of the buffer, if they fit. -/
  onto_eq_ok {n : ℕ} {s : Str} {buffer buffer' : Vector UInt8 n} :
    crates.onto s buffer = .ok buffer' ↔ ∃ bytes, crates.encode bytes = s ∧
      buffer'.toList = bytes ++ buffer.toList.drop bytes.length
  encode_injective : Function.Injective crates.encode
  /-- In base 58 a hash takes 44 digits at most. -/
  len_encode_le (bytes : Vector UInt8 32) : (crates.encode bytes.toList).len ≤ 44
  decodeToSlice_eq_ok {n : ℕ} {s : Str} {buffer buffer' : Vector UInt8 n} :
    crates.decodeToSlice s buffer = .ok buffer' ↔ IsHex s buffer'.toList

namespace Sha256Hash

def display (h : Sha256Hash) : Str := crates.encode h.bytes.toList

def fromStr (s : Str) : Exec (Except (Sha256HashParseError B F) Sha256Hash) :=
  let storeId := Vector.replicate 32 0
  if s.len = 66 then do
    -- Parse as Hex (with 0x).
    let digits ← s.sliceFrom 2
    pure (((crates.decodeToSlice digits storeId).mapError .hex).map mk)
  else if s.len = 64 then
    -- Parse as Hex.
    pure (((crates.decodeToSlice s storeId).mapError .hex).map mk)
  else pure (((crates.onto s storeId).mapError .base58).map mk)

/-- The texts that stand for a hash. -/
def IsText (h : Sha256Hash) (s : Str) : Prop :=
  s = h.display crates ∨ IsHex s h.bytes.toList ∨
    ∃ digits, s = '0' :: 'x' :: digits ∧ IsHex digits h.bytes.toList

/-- The text is parsed without a panic, and only as the hash that it stands for. -/
def ParsedExactly (s : Str) : Prop :=
  ∃ r, fromStr crates s = .ok r ∧ ∀ h, r = .ok h → h.IsText crates s

/-- In a text of 66 bytes a character ends after two bytes, which are `0x` if hexadecimal
digits follow; other text is not the base58 text of fewer than 32 bytes. -/
def Framed (s : Str) : Prop :=
  (s.len = 66 → ∃ head digits, s = head ++ digits ∧ head.len = 2 ∧
    ∀ bytes, IsHex digits bytes → head = ['0', 'x']) ∧
  (s.len ≠ 64 → s.len ≠ 66 → ∀ bytes, crates.encode bytes = s → 32 ≤ bytes.length)

variable {crates} {s : Str} {h : Sha256Hash}

lemma map_mapError_eq_ok {E : Type} {r : Except E (Vector UInt8 32)}
    {f : E → Sha256HashParseError B F} :
    (r.mapError f).map mk = .ok h ↔ r = .ok h.bytes := by
  cases r with
  | error e => exact iff_of_false nofun nofun
  | ok bytes =>
    change Except.ok (mk bytes) = .ok h ↔ _
    simp [Sha256Hash.ext_iff]

lemma display_len_le (hc : crates.Lawful) : (h.display crates).len ≤ 44 :=
  hc.len_encode_le h.bytes

lemma len_of_isHex (hs : IsHex s h.bytes.toList) : s.len = 64 := by
  rw [hs.len_eq, Vector.length_toList]

lemma exists_bytes {l : List UInt8} (hl : l.length = 32) : ∃ h : Sha256Hash, h.bytes.toList = l :=
  ⟨⟨⟨l.toArray, hl⟩⟩, rfl⟩

lemma parsedExactly_iff_of_len_eq_66 (hc : crates.Lawful) (hlen : s.len = 66) :
    ParsedExactly crates s ↔ ∃ head digits, s = head ++ digits ∧ head.len = 2 ∧
      ∀ bytes, IsHex digits bytes → head = ['0', 'x'] := by
  unfold ParsedExactly fromStr
  rw [if_pos hlen]
  constructor
  · rintro ⟨r, hr, htext⟩
    obtain ⟨digits, hslice, heq⟩ := bind_eq_ok.mp hr
    cases heq
    obtain ⟨head, hs, hhead⟩ := Str.sliceFrom_eq_ok.mp hslice
    refine ⟨head, digits, hs, hhead, fun bytes hbytes => ?_⟩
    have hdigits := hbytes.len_eq
    rw [hs, Str.len_append] at hlen
    obtain ⟨h, rfl⟩ := exists_bytes (l := bytes) (by omega)
    rcases htext h (map_mapError_eq_ok.mpr (hc.decodeToSlice_eq_ok.mpr hbytes)) with
      hd | hx | ⟨digits', hs', -⟩
    · have hle := display_len_le hc (h := h)
      rw [← hd, hs, Str.len_append] at hle
      omega
    · have hx := len_of_isHex hx
      rw [hs, Str.len_append] at hx
      omega
    · have hslice' : s.sliceFrom 2 = .ok digits' :=
        Str.sliceFrom_eq_ok.mpr ⟨['0', 'x'], hs', by decide⟩
      obtain rfl : digits = digits' := Except.ok.inj (hslice.symm.trans hslice')
      exact List.append_cancel_right (hs.symm.trans hs')
  · rintro ⟨head, digits, hs, hhead, hdigitsOf⟩
    refine ⟨_, bind_eq_ok.mpr ⟨digits, Str.sliceFrom_eq_ok.mpr ⟨head, hs, hhead⟩, rfl⟩, ?_⟩
    intro h hr
    have hdigits := hc.decodeToSlice_eq_ok.mp (map_mapError_eq_ok.mp hr)
    refine Or.inr (Or.inr ⟨digits, ?_, hdigits⟩)
    rw [hs, hdigitsOf _ hdigits]
    rfl

lemma parsedExactly_of_len_eq_64 (hc : crates.Lawful) (hlen : s.len = 64) :
    ParsedExactly crates s := by
  unfold ParsedExactly fromStr
  rw [if_neg (by omega), if_pos hlen]
  exact ⟨_, rfl, fun h hr =>
    Or.inr (Or.inl (hc.decodeToSlice_eq_ok.mp (map_mapError_eq_ok.mp hr)))⟩

lemma parsedExactly_iff_of_len_ne (hc : crates.Lawful) (h66 : s.len ≠ 66) (h64 : s.len ≠ 64) :
    ParsedExactly crates s ↔ ∀ bytes, crates.encode bytes = s → 32 ≤ bytes.length := by
  unfold ParsedExactly fromStr
  rw [if_neg h66, if_neg h64]
  constructor
  · rintro ⟨r, hr, htext⟩ bytes rfl
    cases hr
    by_contra! hshort
    obtain ⟨h, hh⟩ := exists_bytes
      (l := bytes ++ (Vector.replicate 32 (0 : UInt8)).toList.drop bytes.length)
      (by simp; omega)
    rcases htext h (map_mapError_eq_ok.mpr (hc.onto_eq_ok.mpr ⟨bytes, rfl, hh⟩)) with
      hd | hx | ⟨digits, hs, hx⟩
    · have hbytes := congrArg List.length (hc.encode_injective hd)
      rw [Vector.length_toList] at hbytes
      omega
    · exact h64 (len_of_isHex hx)
    · refine h66 ?_
      rw [hs, Str.len_cons, Str.len_cons, len_of_isHex hx]
      rfl
  · intro hlong
    refine ⟨_, rfl, fun h hr => ?_⟩
    obtain ⟨bytes, hs, hbytes⟩ := hc.onto_eq_ok.mp (map_mapError_eq_ok.mp hr)
    have hle := hlong bytes hs
    rw [List.drop_eq_nil_of_le (by simpa using hle), List.append_nil] at hbytes
    exact Or.inl (by rw [display, hbytes, hs])

lemma parsedExactly_iff (hc : crates.Lawful) : ParsedExactly crates s ↔ Framed crates s := by
  unfold Framed
  by_cases h66 : s.len = 66
  · rw [parsedExactly_iff_of_len_eq_66 hc h66]
    exact ⟨fun h => ⟨fun _ => h, fun _ hne => absurd h66 hne⟩, fun h => h.1 h66⟩
  · by_cases h64 : s.len = 64
    · exact iff_of_true (parsedExactly_of_len_eq_64 hc h64)
        ⟨fun h => absurd h h66, fun h => absurd h64 h⟩
    · rw [parsedExactly_iff_of_len_ne hc h66 h64]
      exact ⟨fun h => ⟨fun h' => absurd h' h66, fun _ _ => h⟩, fun h => h.2 h64 h66⟩

lemma fromStr_display (hc : crates.Lawful) : fromStr crates (h.display crates) = .ok (.ok h) := by
  have hle := display_len_le hc (h := h)
  unfold fromStr
  rw [if_neg (by omega), if_neg (by omega)]
  refine congrArg Except.ok (map_mapError_eq_ok.mpr (hc.onto_eq_ok.mpr ⟨_, rfl, ?_⟩))
  rw [List.drop_eq_nil_of_le (by simp), List.append_nil]

/-- **A text is parsed exactly** when it is framed as its length suggests, and printed text
is parsed back. -/
theorem fromStr_exact (hc : crates.Lawful) :
    (∀ s, ParsedExactly crates s ↔ Framed crates s) ∧
      ∀ h, fromStr crates (display crates h) = .ok (.ok h) :=
  ⟨fun _ => parsedExactly_iff hc, fun _ => fromStr_display hc⟩

end Sha256Hash

end Parser

/-! ### The codes of the crates -/

lemma idxOf?_eq_some_iff {l : Str} (hl : l.Nodup) {c : Char} {i : ℕ} :
    l.idxOf? c = some i ↔ l[i]? = some c := by
  rw [List.idxOf?_eq_some_iff, List.getElem?_eq_some_iff]
  refine exists_congr fun hi => ⟨And.left, fun h => ⟨h, fun j hj heq => ?_⟩⟩
  exact hj.ne ((hl.getElem_inj_iff).mp (heq.trans h.symm))

def hexValue (c : Char) : Option ℕ := (lowerHex.idxOf? c).or (upperHex.idxOf? c)

lemma hexValue_eq_some {c : Char} {v : ℕ} : hexValue c = some v ↔ IsHexDigit c v := by
  have hlower : ∀ i : Fin lowerHex.length, hexValue lowerHex[i] = some i.1 := by decide
  have hupper : ∀ i : Fin upperHex.length, hexValue upperHex[i] = some i.1 := by decide
  constructor
  · intro h
    rw [hexValue, Option.or_eq_some_iff, idxOf?_eq_some_iff (by decide),
      idxOf?_eq_some_iff (by decide)] at h
    exact h.imp_right And.right
  · rintro (h | h) <;> obtain ⟨hv, rfl⟩ := List.getElem?_eq_some_iff.mp h
    · exact hlower ⟨v, hv⟩
    · exact hupper ⟨v, hv⟩

def hexDecode : Str → Option (List UInt8)
  | [] => some []
  | [_] => none
  | hi :: lo :: s => do
    let h ← hexValue hi
    let l ← hexValue lo
    let bytes ← hexDecode s
    pure (UInt8.ofNat (16 * h + l) :: bytes)

lemma IsHexDigit.lt {c : Char} {v : ℕ} (h : IsHexDigit c v) : v < 16 := by
  rcases h with h | h <;> exact (List.getElem?_eq_some_iff.mp h).1

lemma hexDecode_eq_some {s : Str} {bytes : List UInt8} :
    hexDecode s = some bytes ↔ IsHex s bytes := by
  induction s using hexDecode.induct generalizing bytes with
  | case1 => cases bytes <;> simp [hexDecode, IsHex]
  | case2 c => cases bytes <;> simp [hexDecode, IsHex]
  | case3 hi lo s ih =>
    simp only [hexDecode, bind, pure, Option.bind_eq_some_iff, hexValue_eq_some, ih,
      Option.some.injEq]
    cases bytes with
    | nil => simp [IsHex]
    | cons b bytes =>
      rw [IsHex]
      constructor
      · rintro ⟨h, hh, l, hl, bytes', hbytes, heq⟩
        obtain ⟨rfl, rfl⟩ := List.cons.inj heq
        have hb : (UInt8.ofNat (16 * h + l)).toNat = 16 * h + l := by
          have hh := hh.lt
          have hl := hl.lt
          rw [UInt8.toNat_ofNat']
          omega
        rw [hb, show (16 * h + l) / 16 = h by have := hl.lt; omega,
          show (16 * h + l) % 16 = l by have := hl.lt; omega]
        exact ⟨hh, hl, hbytes⟩
      · rintro ⟨hh, hl, hbytes⟩
        refine ⟨_, hh, _, hl, bytes, hbytes, congrArg (· :: bytes) ?_⟩
        rw [Nat.div_add_mod, UInt8.ofNat_toNat]

def base58Alphabet : Str :=
  "123456789ABCDEFGHJKLMNPQRSTUVWXYZabcdefghijkmnopqrstuvwxyz".toList

def base58Encode (bytes : List UInt8) : Str :=
  (Radix.convert 256 58 (bytes.map UInt8.toNat)).map fun d => base58Alphabet.getD d '1'

def base58Decode (s : Str) : Option (List UInt8) :=
  (s.mapM fun c => base58Alphabet.idxOf? c).map fun digits =>
    (Radix.convert 58 256 digits).map UInt8.ofNat

lemma nodup_base58Alphabet : base58Alphabet.Nodup := by decide +kernel

lemma mapM_idxOf?_eq_some {s : Str} {digits : List ℕ} :
    s.mapM (fun c => base58Alphabet.idxOf? c) = some digits ↔
      (∀ d ∈ digits, d < 58) ∧ digits.map (fun d => base58Alphabet.getD d '1') = s := by
  induction s generalizing digits with
  | nil => cases digits <;> simp
  | cons c s ih =>
    rw [mapM_cons_eq_some]
    simp only [idxOf?_eq_some_iff nodup_base58Alphabet, ih]
    cases digits with
    | nil => simp
    | cons d digits =>
      have hd : base58Alphabet[d]? = some c ↔ d < 58 ∧ base58Alphabet.getD d '1' = c := by
        rw [List.getElem?_eq_some_iff, List.getD_eq_getElem?_getD]
        refine ⟨fun ⟨hd, hc⟩ => ⟨hd, by simp [hd, hc]⟩, fun ⟨hd, hc⟩ => ⟨hd, ?_⟩⟩
        rwa [List.getElem?_eq_getElem hd] at hc
      simp only [List.cons.injEq, List.map_cons, List.forall_mem_cons]
      constructor
      · rintro ⟨d', digits', hd', ⟨hlt, hs⟩, rfl, rfl⟩
        exact ⟨⟨(hd.mp hd').1, hlt⟩, (hd.mp hd').2, hs⟩
      · rintro ⟨⟨hlt, hlts⟩, hc, hs⟩
        exact ⟨d, digits, hd.mpr ⟨hlt, hc⟩, ⟨hlts, hs⟩, rfl, rfl⟩

lemma toNat_lt_of_mem_map {bytes : List UInt8} : ∀ d ∈ bytes.map UInt8.toNat, d < 256 := by
  rintro d hd
  obtain ⟨b, -, rfl⟩ := List.mem_map.mp hd
  exact b.toNat_lt

lemma base58Decode_eq_some {s : Str} {bytes : List UInt8} :
    base58Decode s = some bytes ↔ base58Encode bytes = s := by
  unfold base58Decode base58Encode
  simp only [Option.map_eq_some_iff, mapM_idxOf?_eq_some]
  constructor
  · rintro ⟨digits, ⟨hlt, rfl⟩, rfl⟩
    have hbytes : (Radix.convert 58 256 digits).map (UInt8.toNat ∘ UInt8.ofNat) =
        Radix.convert 58 256 digits := by
      refine (List.map_congr_left fun d hd => ?_).trans (List.map_id _)
      have hlt := Radix.lt_of_mem_convert (by decide) hd
      simp only [Function.comp_apply, UInt8.toNat_ofNat', id_eq]
      omega
    rw [List.map_map, hbytes, Radix.convert_convert (by decide) hlt]
  · rintro rfl
    refine ⟨_, ⟨fun d hd => Radix.lt_of_mem_convert (by decide) hd, rfl⟩, ?_⟩
    rw [Radix.convert_convert (by decide) toNat_lt_of_mem_map, List.map_map,
      show UInt8.ofNat ∘ UInt8.toNat = id from funext fun _ => UInt8.ofNat_toNat, List.map_id]

lemma len_base58Encode (bytes : List UInt8) :
    (base58Encode bytes).len = (Radix.convert 256 58 (bytes.map UInt8.toNat)).length := by
  have hsize : ∀ d, (base58Alphabet.getD d '1').utf8Size = 1 := by
    have hall : (('1' :: base58Alphabet).all fun c => c.utf8Size == 1) = true := by decide
    intro d
    refine eq_of_beq (List.all_eq_true.mp hall _ ?_)
    rw [List.getD_eq_getElem?_getD]
    cases h : base58Alphabet[d]? with
    | none => exact List.mem_cons_self
    | some c => exact List.mem_cons_of_mem _ (List.mem_of_getElem? h)
  have hone : (Char.utf8Size ∘ fun d => base58Alphabet.getD d '1') = fun _ => 1 := funext hsize
  rw [base58Encode, Str.len, List.map_map, hone]
  simp

def base58Onto {n : ℕ} (s : Str) (buffer : Vector UInt8 n) : Except Unit (Vector UInt8 n) :=
  match base58Decode s with
  | none => .error ()
  | some bytes =>
    if h : bytes.length ≤ n then
      .ok ⟨(bytes ++ buffer.toList.drop bytes.length).toArray, by simp; omega⟩
    else .error ()

def hexDecodeToSlice {n : ℕ} (s : Str) (_buffer : Vector UInt8 n) :
    Except Unit (Vector UInt8 n) :=
  match hexDecode s with
  | none => .error ()
  | some bytes => if h : bytes.length = n then .ok ⟨bytes.toArray, h⟩ else .error ()

/-- The two codes themselves, with errors that say nothing. -/
def textCrates : TextCrates Unit Unit where
  encode := base58Encode
  onto := base58Onto
  decodeToSlice := hexDecodeToSlice

lemma lawful_textCrates : textCrates.Lawful where
  onto_eq_ok {n s buffer buffer'} := by
    change base58Onto s buffer = _ ↔ ∃ bytes, base58Encode bytes = s ∧ _
    simp only [← base58Decode_eq_some, base58Onto]
    cases hs : base58Decode s with
    | none => exact iff_of_false nofun nofun
    | some bytes =>
      dsimp only
      constructor
      · intro h
        split_ifs at h
        cases h
        exact ⟨bytes, rfl, rfl⟩
      · rintro ⟨bytes', hbytes, h⟩
        cases hbytes
        have hle : bytes.length ≤ n := by
          have hlen := congrArg List.length h
          simp only [Vector.length_toList, List.length_append] at hlen
          omega
        rw [dif_pos hle]
        exact congrArg Except.ok (Vector.toList_inj.mp h.symm)
  encode_injective bytes bytes' h := by
    have hs : base58Decode (base58Encode bytes') = some bytes := base58Decode_eq_some.mpr h
    rw [base58Decode_eq_some.mpr rfl] at hs
    exact (Option.some.inj hs).symm
  len_encode_le bytes := by
    change (base58Encode _).len ≤ 44
    rw [len_base58Encode]
    exact Radix.length_convert_le (n := 32) (by decide) (by decide) toNat_lt_of_mem_map (by simp)
      (by decide)
  decodeToSlice_eq_ok {n s buffer buffer'} := by
    change hexDecodeToSlice s buffer = _ ↔ _
    rw [← hexDecode_eq_some, hexDecodeToSlice]
    cases hs : hexDecode s with
    | none => exact iff_of_false nofun nofun
    | some bytes =>
      dsimp only
      constructor
      · intro h
        split_ifs at h
        cases h
        rfl
      · intro h
        cases h
        rw [dif_pos (by simp)]
        rfl

namespace Sha256Hash

lemma isHex_zeros (n : ℕ) : IsHex (List.replicate (2 * n) '0') (List.replicate n 0) := by
  induction n with
  | zero => exact True.intro
  | succ n ih => exact ⟨Or.inl rfl, Or.inl rfl, ih⟩

lemma len_zeros (n : ℕ) : Str.len (List.replicate n '0') = n := by
  have hsize : '0'.utf8Size = 1 := rfl
  simp [Str.len, hsize]

lemma eq_zeros_of_append {head digits : Str}
    (hs : 'z' :: 'z' :: List.replicate 64 '0' = head ++ digits) (hhead : head.len = 2) :
    digits = List.replicate 64 '0' :=
  (Except.ok.inj (Str.sliceFrom_eq_ok.mpr ⟨head, hs, hhead⟩)).symm

/-- Zeros after `0x` are a hash, zeros after `zz` are not, and the hash of zeros is read back. -/
theorem fromStr_exact_zeros :
    ParsedExactly textCrates ('0' :: 'x' :: List.replicate 64 '0') ∧
      ¬ ParsedExactly textCrates ('z' :: 'z' :: List.replicate 64 '0') ∧
      fromStr textCrates (display textCrates ⟨Vector.replicate 32 0⟩) =
        .ok (.ok ⟨Vector.replicate 32 0⟩) := by
  obtain ⟨hexact, hdisplay⟩ := fromStr_exact lawful_textCrates
  refine ⟨(hexact _).mpr ⟨fun _ => ⟨['0', 'x'], _, rfl, rfl, fun _ _ => rfl⟩, fun _ h66 => ?_⟩,
    fun h => ?_, hdisplay _⟩
  · exact absurd (by rw [Str.len_cons, Str.len_cons, len_zeros]; rfl) h66
  · obtain ⟨head, digits, hs, hhead, hdigitsOf⟩ :=
      ((hexact _).mp h).1 (by rw [Str.len_cons, Str.len_cons, len_zeros]; rfl)
    rw [eq_zeros_of_append hs hhead] at hdigitsOf
    rw [hdigitsOf _ (isHex_zeros 32)] at hs
    cases hs

/-- Three texts that are not parsed exactly: the base58 text of a single byte, digits after two
letters, and a text whose first character ends after the third byte. -/
theorem not_parsedExactly : ¬ ParsedExactly textCrates ['1'] ∧
    ¬ ParsedExactly textCrates ('z' :: 'z' :: List.replicate 64 '0') ∧
    ∀ r, fromStr textCrates ('€' :: List.replicate 63 '0') ≠ .ok r := by
  refine ⟨fun h => ?_, fun h => ?_, fun r h => ?_⟩
  · have hlong := (parsedExactly_iff_of_len_ne lawful_textCrates (by decide) (by decide)).mp h [0]
    exact absurd (hlong (by decide)) (by decide)
  · have hlen : Str.len ('z' :: 'z' :: List.replicate 64 '0') = 66 := by
      rw [Str.len_cons, Str.len_cons, len_zeros]
      rfl
    obtain ⟨head, digits, hs, hhead, hdigitsOf⟩ :=
      (parsedExactly_iff_of_len_eq_66 lawful_textCrates hlen).mp h
    rw [eq_zeros_of_append hs hhead] at hdigitsOf
    rw [hdigitsOf _ (isHex_zeros 32)] at hs
    cases hs
  · have hlen : Str.len ('€' :: List.replicate 63 '0') = 66 := by
      rw [Str.len_cons, len_zeros]
      rfl
    rw [fromStr, if_pos hlen] at h
    cases h

end Sha256Hash

end Ossa.Util
