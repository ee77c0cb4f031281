import Mathlib.Data.Char
import Mathlib.Data.List.Lex
import Mathlib.Data.List.Sort
import Mathlib.Data.Set.Function
import Ossa.HashText
import Ossa.Metadata
import Ossa.PrefixFree

/-!
The type ids that `derive(Typeable)` generates for structs.

A type id is the hash of what the generated `type_ident` feeds to it: the name, the number of
type parameters, the tag if there is one, and the fields. Nothing says whether there is a tag,
but what is fed still determines all of it: the empty tag is the only one that could be taken
for the byte of a struct, and then the numbers of bytes do not agree.

`derive(Typeable)` of an enum generates a call that does not compile, so enums are left out.
-/

namespace Ossa.Typeable

open Ossa.Loop Ossa.Util Ossa.Store Ossa.Codes

/-! ### What is fed to the hash -/

/-- A hash that is computed, by the bytes it was fed. -/
abbrev Sha256 := List UInt8

def update (h : Sha256) (bytes : List UInt8) : Sha256 := h ++ bytes

/-- The bytes of a `str`. -/
def utf8 (s : Str) : List UInt8 := s.flatMap String.utf8EncodeChar

def helperCounter (h : Sha256) (n : ℕ) : Exec Sha256 :=
  if n < 256 then .ok (update h [UInt8.ofNat n])
  else .error (.expect ("Too many inputs: " ++ toString n))

def helperStringNonAscii (h : Sha256) (s : Str) : Exec Sha256 := do
  let h ← helperCounter h s.len
  pure (update h (utf8 s))

def isValidChar (c : Char) : Bool := c.isAlphanum || c == '_'

def helperString (h : Sha256) (s : Str) : Exec Sha256 :=
  -- Check if there are invalid characters
  if s.all isValidChar then helperStringNonAscii h s else .error .assertion

def helperU8 (h : Sha256) (n : UInt8) : Sha256 := update h [n]

def helperTypeConstructor (h : Sha256) (constructor : Str) : Exec Sha256 := helperString h constructor

def helperTypeArgsCount (h : Sha256) (typeArgsCount : UInt8) : Sha256 := update h [typeArgsCount]

/-! ### The declarations that are read -/

/-- A type: the identifiers of its path, if it is one, and its type id. -/
structure Ty where
  path : Option (List Str)
  typeIdent : TypeId

structure NamedField where
  ident : Str
  ty : Ty

inductive Fields
  | named (fields : List NamedField)
  | unnamed (fields : List Ty)
  | unit

inductive AttrStyle
  | outer
  | inner
  deriving DecidableEq

/-- The value of an attribute: a string literal, or anything else. -/
inductive Expr
  | str (s : Str)
  | other

/-- What an attribute says: `path = value`, or anything else. -/
inductive MetaItem
  | nameValue (path : List Str) (value : Expr)
  | other

structure Attribute where
  style : AttrStyle
  item : MetaItem

inductive GenericParam
  | lifetime
  | type
  | const

def GenericParam.isTypeArg : GenericParam → Bool
  | type => true
  | _ => false

/-- A struct. -/
structure DeriveInput where
  attrs : List Attribute
  ident : Str
  generics : List GenericParam
  fields : Fields

/-! ### What is generated -/

def implTypeIdent (h : Sha256) (t : Ty) : Sha256 := update h t.typeIdent.val

/-- Skip types like `PhantomData`. -/
def skipField (ty : Ty) : Bool :=
  match ty.path with
  | some (n :: _) => n == "PhantomData".toList
  | _ => false

/-- The fields that count, sorted by their name. -/
def sortedFields (fs : List NamedField) : List NamedField :=
  (fs.filter fun f => !skipField f.ty).insertionSort fun f g => f.ident ≤ g.ident

def implNamedField (h : Sha256) (f : NamedField) : Exec Sha256 := do
  let h ← helperString h f.ident
  pure (implTypeIdent h f.ty)

def implFields (h : Sha256) : Fields → Exec Sha256
  | .named fs => do
    let fields := sortedFields fs
    let h ← helperCounter (helperU8 h 0) fields.length
    fields.foldlM implNamedField h
  | .unnamed fs => do
    let fields := fs.filter fun ty => !skipField ty
    let h ← helperCounter (helperU8 h 1) fields.length
    pure (fields.foldl implTypeIdent h)
  | .unit => helperCounter (helperU8 h 0) 0

def getTag (a : Attribute) : Option Str :=
  match a.item with
  | .nameValue (seg :: _) value =>
    if seg == "tag".toList then
      match value with
      | .str s => some s
      | .other => none
    else none
  | _ => none

/-- The tag of a struct, from the first of its outer attributes that gives one. -/
def tagOf (attrs : List Attribute) : Option Str :=
  attrs.findSome? fun a => if a.style = .outer then getTag a else none

def implTag (h : Sha256) (attrs : List Attribute) : Exec Sha256 :=
  match tagOf attrs with
  | some tag => helperString h tag
  | none => .ok h

namespace DeriveInput

def typeArgsCount (ast : DeriveInput) : ℕ := ast.generics.countP GenericParam.isTypeArg

/-- What `type_ident` feeds to the hash. -/
def typeIdentBytes (ast : DeriveInput) : Exec Sha256 :=
  -- More type parameters stop the macro.
  if ast.typeArgsCount < 256 then do
    let h ← helperTypeConstructor [] ast.ident
    let h ← implTag (helperTypeArgsCount h (UInt8.ofNat ast.typeArgsCount)) ast.attrs
    implFields (helperU8 h 0) ast.fields
  else .error .unwrap

/-- The type id, for a hash function. -/
def typeIdent (sha256 : List UInt8 → TypeId) (ast : DeriveInput) : Exec TypeId := do
  let h ← ast.typeIdentBytes
  pure (sha256 h)

end DeriveInput

/-! ### Declarations -/

/-- The fields that count. A unit struct has no named fields. -/
inductive Shape
  | named (entries : List (Str × TypeId))
  | unnamed (types : List TypeId)
  deriving DecidableEq

/-- What a type id stands for. -/
structure Declaration where
  name : Str
  typeArgs : ℕ
  tag : Option Str
  shape : Shape
  deriving DecidableEq

def NamedField.entry (f : NamedField) : Str × TypeId := (f.ident, f.ty.typeIdent)

def Fields.shape : Fields → Shape
  | .named fs => .named ((sortedFields fs).map NamedField.entry)
  | .unnamed fs => .unnamed ((fs.filter fun ty => !skipField ty).map Ty.typeIdent)
  | .unit => .named []

def DeriveInput.declaration (ast : DeriveInput) : Declaration where
  name := ast.ident
  typeArgs := ast.typeArgsCount
  tag := tagOf ast.attrs
  shape := ast.fields.shape

/-- Names and tags that can be written: letters, digits and underscores, at most 255 of them. -/
def Plain (s : Str) : Prop := s.all isValidChar = true ∧ s.len < 256

def Shape.Plain : Shape → Prop
  | .named entries => entries.length < 256 ∧ ∀ e ∈ entries, Typeable.Plain e.1
  | .unnamed types => types.length < 256

structure Declaration.Plain (d : Declaration) : Prop where
  name : Typeable.Plain d.name
  typeArgs : d.typeArgs < 256
  tag : ∀ tag ∈ d.tag, Typeable.Plain tag
  shape : d.shape.Plain

/-- A string after its length. -/
def framed (s : Str) : List UInt8 := UInt8.ofNat s.len :: utf8 s

def entryBytes (e : Str × TypeId) : List UInt8 := framed e.1 ++ e.2.val

def Shape.bytes : Shape → List UInt8
  | .named entries => 0 :: UInt8.ofNat entries.length :: entries.flatMap entryBytes
  | .unnamed types => 1 :: UInt8.ofNat types.length :: types.flatMap Subtype.val

def tagBytes : Option Str → List UInt8
  | some tag => framed tag
  | none => []

/-- What a declaration is hashed as. -/
def Declaration.bytes (d : Declaration) : List UInt8 :=
  framed d.name ++ UInt8.ofNat d.typeArgs :: (tagBytes d.tag ++ 0 :: d.shape.bytes)

lemma perm_sortedFields (fs : List NamedField) :
    (sortedFields fs).Perm (fs.filter fun f => !skipField f.ty) := List.perm_insertionSort _ _

lemma pairwise_sortedFields (fs : List NamedField) :
    (sortedFields fs).Pairwise fun f g => f.ident ≤ g.ident := by
  have htotal : Std.Total fun f g : NamedField => f.ident ≤ g.ident :=
    ⟨fun f g => le_total f.ident g.ident⟩
  have htrans : IsTrans NamedField fun f g => f.ident ≤ g.ident := ⟨fun _ _ _ => le_trans⟩
  exact List.pairwise_insertionSort _ _

/-! ### The generated code feeds the declaration -/

variable {h h' : Sha256} {s t : Str}

lemma helperCounter_eq_ok {n : ℕ} :
    helperCounter h n = .ok h' ↔ n < 256 ∧ h' = h ++ [UInt8.ofNat n] := by
  rw [helperCounter]
  split_ifs with hn
  · simp [hn, update, eq_comm]
  · simp [hn]

lemma helperString_eq_ok : helperString h s = .ok h' ↔ Plain s ∧ h' = h ++ framed s := by
  rw [helperString, Plain]
  split_ifs with hs
  · rw [helperStringNonAscii, bind_eq_ok]
    simp only [helperCounter_eq_ok, pure_eq_ok, Except.ok.injEq, update, hs, true_and, framed]
    constructor
    · rintro ⟨_, ⟨hlen, rfl⟩, rfl⟩
      exact ⟨hlen, by simp⟩
    · rintro ⟨hlen, rfl⟩
      exact ⟨_, ⟨hlen, rfl⟩, by simp⟩
  · simp [hs]

lemma foldlM_implNamedField {fs : List NamedField} :
    fs.foldlM implNamedField h = .ok h' ↔
      (∀ e ∈ fs.map NamedField.entry, Plain e.1) ∧
        h' = h ++ (fs.map NamedField.entry).flatMap entryBytes := by
  induction fs generalizing h with
  | nil => simp [eq_comm]
  | cons f fs ih =>
    rw [List.foldlM_cons, bind_eq_ok]
    simp only [ih, implNamedField, bind_eq_ok, helperString_eq_ok, pure_eq_ok, Except.ok.injEq,
      List.map_cons, List.forall_mem_cons, List.flatMap_cons, implTypeIdent, update, entryBytes,
      NamedField.entry]
    constructor
    · rintro ⟨_, ⟨_, ⟨hf, rfl⟩, rfl⟩, hfs, rfl⟩
      exact ⟨⟨hf, hfs⟩, by simp⟩
    · rintro ⟨⟨hf, hfs⟩, rfl⟩
      exact ⟨_, ⟨_, ⟨hf, rfl⟩, rfl⟩, hfs, by simp⟩

lemma foldl_implTypeIdent (tys : List Ty) :
    tys.foldl implTypeIdent h = h ++ (tys.map Ty.typeIdent).flatMap Subtype.val := by
  induction tys generalizing h with
  | nil => simp
  | cons ty tys ih => simp [ih, implTypeIdent, update]

lemma implFields_eq_ok {fs : Fields} :
    implFields h fs = .ok h' ↔ fs.shape.Plain ∧ h' = h ++ fs.shape.bytes := by
  cases fs with
  | named fs =>
    simp only [implFields, bind_eq_ok, helperCounter_eq_ok, foldlM_implNamedField, Fields.shape,
      Shape.Plain, Shape.bytes, List.length_map, helperU8, update]
    constructor
    · rintro ⟨_, ⟨hlen, rfl⟩, hplain, rfl⟩
      exact ⟨⟨hlen, hplain⟩, by simp⟩
    · rintro ⟨⟨hlen, hplain⟩, rfl⟩
      exact ⟨_, ⟨hlen, rfl⟩, hplain, by simp⟩
  | unnamed fs =>
    simp only [implFields, bind_eq_ok, helperCounter_eq_ok, foldl_implTypeIdent, Fields.shape,
      Shape.Plain, Shape.bytes, List.length_map, helperU8, update, pure_eq_ok, Except.ok.injEq]
    constructor
    · rintro ⟨_, ⟨hlen, rfl⟩, rfl⟩
      exact ⟨hlen, by simp⟩
    · rintro ⟨hlen, rfl⟩
      exact ⟨_, ⟨hlen, rfl⟩, by simp⟩
  | unit =>
    simp [implFields, helperCounter_eq_ok, Fields.shape, Shape.Plain, Shape.bytes, helperU8, update]

lemma implTag_eq_ok {attrs : List Attribute} :
    implTag h attrs = .ok h' ↔ (∀ tag ∈ tagOf attrs, Plain tag) ∧
      h' = h ++ tagBytes (tagOf attrs) := by
  rw [implTag]
  cases tagOf attrs with
  | some tag => simp [helperString_eq_ok, tagBytes]
  | none => simp [tagBytes, eq_comm]

/-- **The generated code feeds the declaration** to the hash, if it can be written. -/
theorem typeIdentBytes_eq_ok {ast : DeriveInput} :
    ast.typeIdentBytes = .ok h ↔ ast.declaration.Plain ∧ h = ast.declaration.bytes := by
  rw [DeriveInput.typeIdentBytes]
  split_ifs with hargs
  · simp only [bind_eq_ok, helperTypeConstructor, helperString_eq_ok, implTag_eq_ok,
      implFields_eq_ok, helperTypeArgsCount, helperU8, update]
    constructor
    · rintro ⟨_, ⟨hname, rfl⟩, _, ⟨htag, rfl⟩, hshape, rfl⟩
      exact ⟨⟨hname, hargs, htag, hshape⟩, by
        simp [Declaration.bytes, DeriveInput.declaration]⟩
    · rintro ⟨⟨hname, -, htag, hshape⟩, rfl⟩
      exact ⟨_, ⟨hname, rfl⟩, _, ⟨htag, rfl⟩, hshape, by
        simp [Declaration.bytes, DeriveInput.declaration]⟩
  · exact iff_of_false nofun fun hd => hargs hd.1.typeArgs

/-! ### Reading a declaration back -/

lemma length_utf8 (s : Str) : (utf8 s).length = s.len := by
  simp [utf8, Str.len, List.length_flatMap]

lemma utf8_inj (h : utf8 s = utf8 t) : s = t := by
  have hbytes : (String.ofList s).toByteArray = (String.ofList t).toByteArray := by
    rw [String.toByteArray_ofList, String.toByteArray_ofList]
    exact congrArg List.toByteArray h
  exact String.ofList_inj.mp (String.toByteArray_inj.mp hbytes)

lemma byte_inj {n m : ℕ} (hn : n < 256) (hm : m < 256) (h : UInt8.ofNat n = UInt8.ofNat m) :
    n = m := by
  have := congrArg UInt8.toNat h
  simp only [UInt8.toNat_ofNat'] at this
  omega

lemma prefixFree_framed : PrefixFree Plain framed :=
  .framed (fun s _ => length_utf8 s) (fun _ _ hs ht => byte_inj hs.2 ht.2) fun _ _ _ _ => utf8_inj

lemma prefixFree_typeId : PrefixFree (fun _ : TypeId => True) Subtype.val :=
  prefixFree_of_length (fun id _ => id.2) fun _ _ _ _ => Subtype.ext

lemma prefixFree_entryBytes : PrefixFree (fun e : Str × TypeId => Plain e.1) entryBytes := by
  intro e e' he he' xs ys heq
  exact (prefixFree_framed.prod prefixFree_typeId) ⟨he, trivial⟩ ⟨he', trivial⟩ heq

lemma prefixFree_shape : PrefixFree Shape.Plain Shape.bytes := by
  intro a b ha hb xs ys heq
  cases a with
  | named entries =>
    cases b with
    | named entries' =>
      simp only [Shape.bytes, List.cons_append, List.cons.injEq, true_and] at heq
      obtain ⟨hlen, heq⟩ := heq
      obtain ⟨rfl, hrest⟩ := prefixFree_entryBytes.flatMap entries.length ⟨rfl, ha.2⟩
        ⟨(byte_inj ha.1 hb.1 hlen).symm, hb.2⟩ heq
      exact ⟨rfl, hrest⟩
    | unnamed types => simp [Shape.bytes] at heq
  | unnamed types =>
    cases b with
    | named entries => simp [Shape.bytes] at heq
    | unnamed types' =>
      simp only [Shape.bytes, List.cons_append, List.cons.injEq, true_and] at heq
      obtain ⟨hlen, heq⟩ := heq
      obtain ⟨rfl, hrest⟩ := prefixFree_typeId.flatMap types.length ⟨rfl, fun _ _ => trivial⟩
        ⟨(byte_inj ha hb hlen).symm, fun _ _ => trivial⟩ heq
      exact ⟨rfl, hrest⟩

lemma length_flatMap_types (types : List TypeId) :
    (types.flatMap Subtype.val).length = 32 * types.length := by
  induction types with
  | nil => rfl
  | cons id types ih =>
    rw [List.flatMap_cons, List.length_append, ih, id.2, List.length_cons]
    omega

/-- **A tag is never taken for the byte of a struct.** Only the empty tag begins with this byte,
and then what follows would be the one entry of a struct with named fields, and as many type ids
as its name is long. -/
lemma untagged_ne_tagged {a b : Shape} {tag : Str} (ha : a.Plain) (hb : b.Plain)
    (htag : Plain tag) : 0 :: a.bytes ≠ framed tag ++ 0 :: b.bytes := by
  intro heq
  simp only [framed, List.cons_append, List.cons.injEq] at heq
  obtain ⟨hlen, heq⟩ := heq
  have hempty : tag.len = 0 := (byte_inj (n := 0) (by omega) htag.2 hlen).symm
  have hnil : utf8 tag = [] := List.length_eq_zero_iff.mp ((length_utf8 tag).trans hempty)
  rw [hnil, List.nil_append] at heq
  cases a with
  | unnamed types => simp [Shape.bytes] at heq
  | named entries =>
    simp only [Shape.bytes, List.cons.injEq, true_and] at heq
    cases b with
    | named entries' =>
      simp only [List.cons.injEq] at heq
      have hzero : entries.length = 0 := byte_inj ha.1 (by omega) heq.1
      rw [List.length_eq_zero_iff.mp hzero] at heq
      cases heq.2
    | unnamed types =>
      simp only [List.cons.injEq] at heq
      have hone : entries.length = 1 := byte_inj ha.1 (by omega) heq.1
      obtain ⟨⟨name, id⟩, rfl⟩ := List.length_eq_one_iff.mp hone
      obtain ⟨-, heq⟩ := heq
      simp only [List.flatMap_singleton, entryBytes, framed, List.cons_append,
        List.cons.injEq] at heq
      obtain ⟨hhead, htail⟩ := heq
      have hname : name.len < 256 := (ha.2 _ List.mem_cons_self).2
      have hcount : name.len = types.length := byte_inj hname hb hhead
      -- the bytes of the name and of its type id, against those of the type ids
      have hbytes := congrArg List.length htail
      rw [List.length_append, length_utf8, length_flatMap_types, id.2] at hbytes
      omega

/-- **Declarations are uniquely decodable.** -/
theorem Declaration.bytes_inj {a b : Declaration} (ha : a.Plain) (hb : b.Plain)
    (heq : a.bytes = b.bytes) : a = b := by
  obtain ⟨name, typeArgs, tag, shape⟩ := a
  obtain ⟨name', typeArgs', tag', shape'⟩ := b
  obtain ⟨hname : name = name', hrest⟩ := prefixFree_framed ha.name hb.name heq
  obtain ⟨hcount, htag⟩ := List.cons.inj hrest
  have hargs : typeArgs = typeArgs' := byte_inj ha.typeArgs hb.typeArgs hcount
  subst hname hargs
  clear heq hrest hcount
  have hshape : ∀ {sh sh' : Shape}, sh.Plain → sh'.Plain → sh.bytes = sh'.bytes → sh = sh' :=
    prefixFree_shape.injOn
  cases tag with
  | none =>
    cases tag' with
    | none =>
      have hsame : shape = shape' := hshape ha.shape hb.shape (List.cons.inj htag).2
      rw [hsame]
    | some tag' => exact absurd htag (untagged_ne_tagged ha.shape hb.shape (hb.tag tag' rfl))
  | some tag =>
    cases tag' with
    | none => exact absurd htag.symm (untagged_ne_tagged hb.shape ha.shape (ha.tag tag rfl))
    | some tag' =>
      obtain ⟨rfl, hbody⟩ := prefixFree_framed (ha.tag tag rfl) (hb.tag tag' rfl) htag
      have hsame : shape = shape' := hshape ha.shape hb.shape (List.cons.inj hbody).2
      rw [hsame]

/-- **Type ids stand for declarations.** For structs whose names and tags can be written and
that have no more than 255 fields and type parameters, `type_ident` returns; the same bytes are
fed to the hash for the same declarations only; and if the hash has no collision among some
byte strings that include these two, then the type ids are equal for the same declarations
only. -/
theorem declaration_of_typeIdent {A B : DeriveInput} (hA : A.declaration.Plain)
    (hB : B.declaration.Plain) :
    ∃ a b, A.typeIdentBytes = .ok a ∧ B.typeIdentBytes = .ok b ∧
      (a = b ↔ A.declaration = B.declaration) ∧
      ∀ (sha256 : List UInt8 → TypeId) (U : Set (List UInt8)), Set.InjOn sha256 U → a ∈ U → b ∈ U →
        (A.typeIdent sha256 = B.typeIdent sha256 ↔ A.declaration = B.declaration) := by
  have ha := typeIdentBytes_eq_ok.mpr ⟨hA, rfl⟩
  have hb := typeIdentBytes_eq_ok.mpr ⟨hB, rfl⟩
  have hbytes : A.declaration.bytes = B.declaration.bytes ↔ A.declaration = B.declaration :=
    ⟨Declaration.bytes_inj hA hB, congrArg Declaration.bytes⟩
  refine ⟨_, _, ha, hb, hbytes, fun sha256 U hinj haU hbU => ?_⟩
  rw [DeriveInput.typeIdent, DeriveInput.typeIdent, ha, hb]
  simp only [ok_bind, pure_eq_ok, Except.ok.injEq]
  exact (hinj.eq_iff haU hbU).trans hbytes

/-! The empty tag of a struct with one unnamed field, beside no tag and one named field. -/

section Wrapper

def bareType : Ty := ⟨none, ⟨List.replicate 32 7, rfl⟩⟩

def untagged : DeriveInput := ⟨[], ['W'], [], .named [⟨['x'], bareType⟩]⟩

def emptyTagged : DeriveInput where
  attrs := [⟨.outer, .nameValue [['t', 'a', 'g']] (.str [])⟩]
  ident := ['W']
  generics := []
  fields := .unnamed [bareType]

theorem declaration_of_typeIdent_wrapper : ∃ a b, untagged.typeIdentBytes = .ok a ∧
    emptyTagged.typeIdentBytes = .ok b ∧ a ≠ b := by
  have hname : Plain ['W'] := ⟨by decide, by decide⟩
  have hx : Plain ['x'] := ⟨by decide, by decide⟩
  have hA : untagged.declaration.Plain :=
    ⟨hname, by decide, by simp [DeriveInput.declaration, untagged, tagOf], by decide, by
      simpa [DeriveInput.declaration, untagged, Fields.shape, sortedFields, skipField, bareType,
        NamedField.entry] using hx⟩
  have htag : tagOf emptyTagged.attrs = some [] := by decide
  have hB : emptyTagged.declaration.Plain :=
    ⟨hname, by decide, fun tag h => by
      rw [DeriveInput.declaration, htag] at h
      cases h
      exact ⟨by decide, by decide⟩, (by decide : 1 < 256)⟩
  obtain ⟨a, b, ha, hb, hiff, -⟩ := declaration_of_typeIdent hA hB
  refine ⟨a, b, ha, hb, fun heq => ?_⟩
  have htags := congrArg Declaration.tag (hiff.mp heq)
  rw [DeriveInput.declaration, DeriveInput.declaration, htag] at htags
  cases htags

end Wrapper

end Ossa.Typeable
