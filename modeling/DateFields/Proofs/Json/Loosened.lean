import DateFields.Json.Fields
import Mathlib.Data.List.Basic

/-!
# Documents written with liberties

Whoever writes a document need not write it like the program does.  The fields of an object may come
in any order, others may stand among them, and a field may be left out when it is `null` or holds
the value that it stands for when it is missing.

* `Loosens` — a document, and the same with such liberties taken at any depth;
* `Reads` — a reader takes a document, with whatever liberties, for a value;
* `Loose` — the fields of an object with liberties taken; `Loose.required`, `Loose.optional` and
  `Loose.defaulted` say what the readers of fields make of them.
-/

namespace DateFields.Json

/-! ### Liberties -/

/-- What a field stands for when it is missing, by the kind that the object names and by the name of
the field. -/
def defaults : List ((Option String × String) × Json) :=
  [((some "variable", "var_kind"), .string "var"), ((some "for_of", "var_kind"), .string "var"),
    ((some "function", "is_async"), .bool false), ((some "function", "params"), .array []),
    ((some "function", "body"), .array []), ((some "class", "members"), .array []),
    ((some "method", "is_static"), .bool false), ((some "method", "is_async"), .bool false),
    ((some "method", "params"), .array []), ((some "method", "body"), .array []),
    ((some "class_field", "is_static"), .bool false), ((some "call", "id"), ofNat 4294967295),
    ((some "call", "type_arguments"), .array []), ((some "call", "arguments"), .array []),
    ((some "new", "arguments"), .array []), ((some "arrow", "is_async"), .bool false),
    ((some "arrow", "params"), .array []), ((some "reference", "args"), .array []),
    ((some "type_literal", "members"), .array []), ((none, "named"), .array []),
    ((none, "statements"), .array [])]

/-- The kind that an object names, if it names one. -/
def kind? (fields : Fields) : Option String := (fields.lookup "kind").bind string?

/-- A field that an object of a kind may leave out. -/
def Omissible (kind : Option String) (key : String) (v : Json) : Prop :=
  v = .null ∨ defaults.lookup (kind, key) = some v

mutual

/-- The second document is the first with liberties taken. -/
inductive Loosens : Json → Json → Prop
  /-- `null` -/
  | null : Loosens .null .null
  /-- `true` or `false` -/
  | bool (b : Bool) : Loosens (.bool b) (.bool b)
  /-- A number. -/
  | number (n : Numeral) : Loosens (.number n) (.number n)
  /-- A string. -/
  | string (s : String) : Loosens (.string s) (.string s)
  /-- What stands for nothing. -/
  | garbled : Loosens .garbled .garbled
  /-- Liberties are taken in the items of a list. -/
  | array {vs ws : List Json} (hitems : LoosensItems vs ws) : Loosens (.array vs) (.array ws)
  /-- Some fields are left out, fields with other names are added, and all of them come in any
  order. -/
  | object {fields kept added ws : Fields} (hkept : LoosensFields (kind? fields) fields kept)
    (hadded : ∀ f ∈ added, f.1 ∉ fields.map Prod.fst) (horder : ws.Perm (kept ++ added)) :
    Loosens (.object fields) (.object ws)

/-- The same item by item. -/
inductive LoosensItems : List Json → List Json → Prop
  /-- There are no items. -/
  | nil : LoosensItems [] []
  /-- The first item and the others. -/
  | cons {v w : Json} {vs ws : List Json} (hfirst : Loosens v w) (hrest : LoosensItems vs ws) :
    LoosensItems (v :: vs) (w :: ws)

/-- The same field by field, with fields left out. -/
inductive LoosensFields : Option String → Fields → Fields → Prop
  /-- There are no fields. -/
  | nil {kind : Option String} : LoosensFields kind [] []
  /-- The first field is kept. -/
  | keep {kind : Option String} {key : String} {v w : Json} {fs kept : Fields}
    (hvalue : Loosens v w) (hrest : LoosensFields kind fs kept) :
    LoosensFields kind ((key, v) :: fs) ((key, w) :: kept)
  /-- The first field is left out. -/
  | leaveOut {kind : Option String} {key : String} {v : Json} {fs kept : Fields}
    (hvalue : Omissible kind key v) (hrest : LoosensFields kind fs kept) :
    LoosensFields kind ((key, v) :: fs) kept

end

mutual

/-- No liberty need be taken. -/
theorem Loosens.refl : ∀ v : Json, v.Loosens v
  | .null => .null
  | .bool b => .bool b
  | .number n => .number n
  | .string s => .string s
  | .garbled => .garbled
  | .array vs => .array (LoosensItems.refl vs)
  | .object fs => @Loosens.object fs fs [] fs (LoosensFields.refl (kind? fs) fs) (by simp) (by simp)

theorem LoosensItems.refl : ∀ vs : List Json, LoosensItems vs vs
  | [] => .nil
  | v :: vs => .cons (Loosens.refl v) (LoosensItems.refl vs)

theorem LoosensFields.refl (kind : Option String) : ∀ fs : Fields, LoosensFields kind fs fs
  | [] => .nil
  | (_, v) :: fs => .keep (Loosens.refl v) (LoosensFields.refl kind fs)

end

/-! ### Size limits -/

theorem itemsFit_iff {room : Nat} {vs : List Json} :
    itemsFit room vs = true ↔ ∀ v ∈ vs, v.fits room = true := by
  induction vs with
  | nil => simp [itemsFit]
  | cons v vs ih => simp [itemsFit, ih]

theorem fieldsFit_iff {room : Nat} {fs : Fields} :
    fieldsFit room fs = true ↔ ∀ f ∈ fs, f.2.fits room = true := by
  induction fs with
  | nil => simp [fieldsFit]
  | cons f fs ih => simp [fieldsFit, ih]

mutual

/-- A value that fits also fits where there is more room. -/
theorem fits_mono {room room' : Nat} (hle : room ≤ room') :
    ∀ {v : Json}, v.fits room = true → v.fits room' = true
  | .null, _ => rfl
  | .bool _, _ => rfl
  | .string _, _ => rfl
  | .number _, h => h
  | .garbled, h => h
  | .array items, h => by
    cases room with
    | zero => cases h
    | succ room =>
      obtain ⟨room', rfl⟩ : ∃ n, room' = n + 1 := Nat.exists_eq_add_one.2 (by omega)
      exact itemsFit_mono (Nat.le_of_succ_le_succ hle) h
  | .object fields, h => by
    cases room with
    | zero => cases h
    | succ room =>
      obtain ⟨room', rfl⟩ : ∃ n, room' = n + 1 := Nat.exists_eq_add_one.2 (by omega)
      exact fieldsFit_mono (Nat.le_of_succ_le_succ hle) h

theorem itemsFit_mono {room room' : Nat} (hle : room ≤ room') :
    ∀ {vs : List Json}, itemsFit room vs = true → itemsFit room' vs = true
  | [], _ => rfl
  | v :: vs, h => by
    rw [itemsFit, Bool.and_eq_true] at h ⊢
    exact ⟨fits_mono hle h.1, itemsFit_mono hle h.2⟩

theorem fieldsFit_mono {room room' : Nat} (hle : room ≤ room') :
    ∀ {fs : Fields}, fieldsFit room fs = true → fieldsFit room' fs = true
  | [], _ => rfl
  | (_, v) :: fs, h => by
    rw [fieldsFit, Bool.and_eq_true] at h ⊢
    exact ⟨fits_mono hle h.1, fieldsFit_mono hle h.2⟩

end

/-- The value is an object in which the fields of some names fit; no other field matters. -/
def namedFit (names : List String) : Nat → Json → Bool
  | room + 1, .object fields => fieldsFit room (fields.filter (names.contains ·.1))
  | _, _ => false

theorem namedFit_object {names : List String} {room : Nat} {fs : Fields} :
    namedFit names (room + 1) (.object fs) = true ↔
      ∀ f ∈ fs, f.1 ∈ names → f.2.fits room = true := by
  rw [namedFit, fieldsFit_iff]
  simp

/-! ### Readers -/

section Readers

variable {α : Type} {room room' : Nat} {decode : Json → Option α} {v : Json} {a : α}

/-- The reader takes a document for the value, with whatever liberties it is written, if it fits. -/
def Reads (room : Nat) (decode : Json → Option α) (v : Json) (a : α) : Prop :=
  ∀ w, v.Loosens w → w.fits room = true → decode w = some a

theorem Reads.mono (h : Reads room' decode v a) (hle : room ≤ room') : Reads room decode v a :=
  fun w hw hfits => h w hw (fits_mono hle hfits)

theorem reads_string (room : Nat) (s : String) : Reads room string? (.string s) s := by
  rintro w ⟨⟩ -
  rfl

theorem reads_bool (room : Nat) (b : Bool) : Reads room bool? (.bool b) b := by
  rintro w ⟨⟩ -
  rfl

/-- A list is read item by item, one level further in. -/
theorem reads_list_succ {f : α → Json} {as : List α} (h : ∀ a ∈ as, Reads room decode (f a) a) :
    Reads (room + 1) (list? decode) (.array (as.map f)) as := by
  intro w hw hfits
  cases hw with
  | @array _ ws hitems =>
    rw [fits, itemsFit_iff] at hfits
    rw [list?]
    induction as generalizing ws with
    | nil => cases hitems; rfl
    | cons a as ih =>
      cases hitems with
      | @cons _ w _ ws hfirst hrest =>
        obtain ⟨hw, hws⟩ := List.forall_mem_cons.1 hfits
        have ha := h a List.mem_cons_self w hfirst hw
        have has := ih (fun b hb => h b (List.mem_cons_of_mem a hb)) hrest hws
        simp [ha, has]

theorem reads_list {f : α → Json} {as : List α} (h : ∀ a ∈ as, Reads room decode (f a) a) :
    Reads room (list? decode) (.array (as.map f)) as := by
  cases room with
  | zero =>
    rintro w ⟨⟩ hfits
    cases hfits
  | succ room => exact reads_list_succ fun a ha => (h a ha).mono (Nat.le_succ room)

theorem listWithin_null {decode : Nat → Json → Option α} (room : Nat) :
    listWithin decode room .null = none := by
  cases room <;> rfl

end Readers

/-! ### Fields -/

/-- The fields of an object with liberties taken, as far as their names are known with values that
fit. -/
structure Loose (room : Nat) (fields ws : Fields) : Prop where
  /-- Liberties are taken. -/
  loosens : (object fields).Loosens (object ws)
  /-- The values of known fields fit. -/
  fits : ∀ f ∈ ws, f.1 ∈ fields.map Prod.fst → f.2.fits room = true

section Fields

variable {α : Type} {room : Nat} {fields kept ws : Fields} {kind : Option String} {key : String}
  {v : Json}

theorem field?_eq_some {w : Json} : field? fields key = some (some w) ↔
    fields.filter (·.1 == key) = [(key, w)] := by
  rw [field?]
  constructor
  · intro h
    split at h
    · cases h
    · rename_i k w' hfilter
      cases h
      have hk : (k, w) ∈ fields.filter (·.1 == key) := hfilter ▸ List.mem_cons_self
      rw [hfilter, show k = key by simpa using (List.mem_filter.1 hk).2]
    · cases h
  · intro h
    rw [h]

theorem LoosensFields.filter (h : LoosensFields kind fields kept) (key : String) :
    LoosensFields kind (fields.filter (·.1 == key)) (kept.filter (·.1 == key)) := by
  induction fields generalizing kept with
  | nil => cases h; exact .nil
  | cons f fs ih =>
    cases h with
    | @keep _ k v w _ _ hvalue hrest =>
      by_cases hk : k = key
      · simpa [hk] using LoosensFields.keep hvalue (ih hrest)
      · simpa [hk] using ih hrest
    | @leaveOut _ k v _ _ hvalue hrest =>
      by_cases hk : k = key
      · subst hk
        simpa using LoosensFields.leaveOut hvalue (ih hrest)
      · simpa [hk] using ih hrest

/-- A field is written with liberties taken in its value, or it is left out. -/
theorem Loose.field? (h : Loose room fields ws) (hfield : Json.field? fields key = some (some v)) :
    (∃ w, Json.field? ws key = some (some w) ∧ v.Loosens w ∧ w.fits room = true) ∨
      (Json.field? ws key = some none ∧ Omissible (kind? fields) key v) := by
  obtain ⟨hloosens, hfits⟩ := h
  have hfilter := field?_eq_some.1 hfield
  have hknown : key ∈ fields.map Prod.fst := by
    have hmem : (key, v) ∈ fields.filter (·.1 == key) := hfilter ▸ List.mem_cons_self
    exact List.mem_map_of_mem (List.mem_filter.1 hmem).1
  cases hloosens with
  | @object _ kept added _ hkept hadded horder =>
    have hnone : added.filter (·.1 == key) = [] := by
      rw [List.filter_eq_nil_iff]
      rintro f hf hkey
      exact hadded f hf (by rwa [show f.1 = key by simpa using hkey])
    have hperm := horder.filter (·.1 == key)
    rw [List.filter_append, hnone, List.append_nil] at hperm
    have hkept := hkept.filter key
    rw [hfilter] at hkept
    generalize kept.filter (·.1 == key) = found at hperm hkept
    cases hkept with
    | @keep _ _ _ w _ _ hvalue hrest =>
      cases hrest
      rw [List.perm_singleton] at hperm
      have hmem : (key, w) ∈ ws.filter (·.1 == key) := hperm ▸ List.mem_cons_self
      exact .inl ⟨w, field?_eq_some.2 hperm, hvalue, hfits _ (List.mem_filter.1 hmem).1 hknown⟩
    | leaveOut hvalue hrest =>
      cases hrest
      rw [List.perm_nil] at hperm
      exact .inr ⟨by rw [Json.field?, hperm], hvalue⟩

variable {decode : Json → Option α} (h : Loose room fields ws)

include h

/-- A field that no `null` is read from is written and read, or it holds its default and is left
out. -/
theorem Loose.read {a : α} (hfield : Json.field? fields key = some (some v))
    (hnull : decode .null = none) (hread : Reads room decode v a) :
    (∃ w, Json.field? ws key = some (some w) ∧ decode w = some a) ∨
      (Json.field? ws key = some none ∧ defaults.lookup (kind? fields, key) = some v) := by
  rcases h.field? hfield with ⟨w, hw, hvalue, hfits⟩ | ⟨hw, rfl | hv⟩
  · exact .inl ⟨w, hw, hread w hvalue hfits⟩
  · rw [hread .null .null rfl] at hnull
    cases hnull
  · exact .inr ⟨hw, hv⟩

/-- A field without a default is read. -/
theorem Loose.required {a : α} (key : String)
    (hfield : Json.field? fields key = some (some v))
    (hdefault : defaults.lookup (kind? fields, key) = none) (hnull : decode .null = none)
    (hread : Reads room decode v a) : Json.required ws key decode = some a := by
  rw [Json.required]
  rcases h.read hfield hnull hread with ⟨w, hw, hdecode⟩ | ⟨-, hv⟩
  · simp [hw, hdecode]
  · rw [hdefault] at hv
    cases hv

/-- A field that may be `null` is read. -/
theorem Loose.optional {f : α → Json} {o : Option α} (key : String)
    (hfield : Json.field? fields key = some (some (.ofOption f o)))
    (hdefault : defaults.lookup (kind? fields, key) = none) (hnull : decode .null = none)
    (hread : ∀ a, o = some a → Reads room decode (f a) a) :
    Json.optional ws key decode = some o := by
  rw [Json.optional]
  cases o with
  | none =>
    rcases h.field? hfield with ⟨w, hw, hvalue, -⟩ | ⟨hw, -⟩
    · cases hvalue
      simp [hw]
    · simp [hw]
  | some a =>
    rcases h.read hfield hnull (hread a rfl) with ⟨w, hw, hdecode⟩ | ⟨-, hv⟩
    · have hne : w ≠ .null := by
        rintro rfl
        rw [hnull] at hdecode
        cases hdecode
      simp [hw, hdecode]
    · rw [hdefault] at hv
      cases hv

/-- A field with a default is read. -/
theorem Loose.defaulted {a default : α} {d : Json} (key : String)
    (hfield : Json.field? fields key = some (some v))
    (hdefault : defaults.lookup (kind? fields, key) = some d) (hnull : decode .null = none)
    (hread : Reads room decode v a) (hsame : v = d → a = default) :
    Json.defaulted ws key default decode = some a := by
  rw [Json.defaulted]
  rcases h.read hfield hnull hread with ⟨w, hw, hdecode⟩ | ⟨hw, hv⟩
  · simp [hw, hdecode]
  · rw [hdefault, Option.some_inj] at hv
    simp [hw, hsame hv.symm]

/-- A text is read. -/
theorem Loose.text {s : String} (key : String)
    (hfield : Json.field? fields key = some (some (.string s)))
    (hdefault : defaults.lookup (kind? fields, key) = none) :
    Json.required ws key string? = some s :=
  h.required key hfield hdefault rfl (reads_string room s)

/-- A flag that is not set by default is read. -/
theorem Loose.flag {b : Bool} (key : String)
    (hfield : Json.field? fields key = some (some (.bool b)))
    (hdefault : defaults.lookup (kind? fields, key) = some (.bool false)) :
    Json.defaulted ws key false bool? = some b :=
  h.defaulted key hfield hdefault rfl (reads_bool room b) fun hb => by simpa using hb

/-- A list that is empty by default is read. -/
theorem Loose.items {f : α → Json} {as : List α} (key : String)
    (hfield : Json.field? fields key = some (some (.array (as.map f))))
    (hdefault : defaults.lookup (kind? fields, key) = some (.array []))
    (hread : ∀ a ∈ as, Reads room decode (f a) a) :
    Json.defaulted ws key [] (list? decode) = some as :=
  h.defaulted key hfield hdefault rfl (reads_list hread) fun has => by simpa using has

end Fields

/-! ### What has been read -/

section Read

variable {α : Type} {ws : Fields} {key : String} {decode : Json → Option α} {w : Json}

theorem field?_of_mem {r : Option Json} (h : field? ws key = some r) (hw : (key, w) ∈ ws) :
    r = some w := by
  have hmem : (key, w) ∈ ws.filter (·.1 == key) := List.mem_filter.2 ⟨hw, beq_self_eq_true key⟩
  rw [field?] at h
  split at h
  · rename_i hfilter
    rw [hfilter] at hmem
    cases hmem
  · rename_i hfilter
    rw [hfilter, List.mem_singleton] at hmem
    cases hmem
    cases h
    rfl
  · cases h

theorem decode_of_required {a : α} (h : required ws key decode = some a) (hw : (key, w) ∈ ws) :
    decode w = some a := by
  rw [required, Option.bind_eq_bind, Option.bind_eq_some_iff] at h
  obtain ⟨r, hr, h⟩ := h
  rw [field?_of_mem hr hw] at h
  exact h

theorem decode_of_optional {o : Option α} (h : optional ws key decode = some o)
    (hw : (key, w) ∈ ws) : w = .null ∨ ∃ a, decode w = some a := by
  rw [optional, Option.bind_eq_bind, Option.bind_eq_some_iff] at h
  obtain ⟨r, hr, h⟩ := h
  rw [field?_of_mem hr hw] at h
  cases hd : decode w with
  | some a => exact .inr ⟨a, rfl⟩
  | none =>
    refine .inl ?_
    cases w <;> simp_all

theorem string?_eq_some {s : String} (h : string? w = some s) : w = .string s := by
  cases w with
  | string _ => exact congrArg string (Option.some.inj h)
  | _ => cases h

/-- Every item of a list that has been read has been read. -/
theorem decode_of_list? {as : List α} (h : list? decode w = some as) :
    ∃ vs, w = .array vs ∧ ∀ v ∈ vs, ∃ a, decode v = some a := by
  cases w with
  | array vs =>
    refine ⟨vs, rfl, ?_⟩
    rw [list?] at h
    induction vs generalizing as with
    | nil => simp
    | cons v vs ih =>
      simp only [List.mapM_cons, Option.bind_eq_bind, Option.bind_eq_some_iff] at h
      obtain ⟨a, ha, as, has, -⟩ := h
      exact List.forall_mem_cons.2 ⟨⟨a, ha⟩, ih has⟩
  | _ => cases h

theorem decode_of_defaulted {a default : α} (h : defaulted ws key default decode = some a)
    (hw : (key, w) ∈ ws) : decode w = some a := by
  rw [defaulted, Option.bind_eq_bind, Option.bind_eq_some_iff] at h
  obtain ⟨r, hr, h⟩ := h
  rw [field?_of_mem hr hw] at h
  exact h

end Read

/-- The reader of an object that needs one level of nesting. -/
theorem reads_object {α : Type} (decode : Nat → Json → Option α) {fields : Fields} {a : α}
    (h : ∀ room ws, Loose room fields ws → decode (room + 1) (.object ws) = some a) (room : Nat) :
    Reads room (decode room) (.object fields) a := by
  intro w hw hfits
  cases hw with
  | object hkept hadded horder =>
    cases room with
    | zero => cases hfits
    | succ room =>
      exact h room _ ⟨.object hkept hadded horder, fun f hf _ => fieldsFit_iff.1 hfits f hf⟩

end DateFields.Json
