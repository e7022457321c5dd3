import DateFields.Proofs.TypeTable.History
import DateFields.Proofs.TypeTable.Members
import Mathlib.Data.List.Basic

/-!
# What path discovery finds

The walk along the fields of a type enters types while it runs, yet it finds what a walk on the
table it starts from would find: the ways from the root to the dates inside it on which no type is
met twice, in the order of the properties.

* `pathsBelow` — the same walk on a table that stays as it is;
* `WellFormed.run_discover` — discovery finds the paths of that walk;
* `SameNames.pathsOf?_eq` — what it finds inside the type of an expression only depends on what is
  declared;
* `Way` — a chain of properties from a type to a date;
* `mem_pathsBelow` — the paths that are found are the ways on which no type is met twice;
* `pathsBelow_pairwise` — they come in the order of the positions of the properties.
-/

namespace DateFields.TypeTable

variable {t u : TypeTable} {timestamp : String}

/-! ### The walk on a table that stays as it is -/

/-- The paths that one property contributes to those of the type it belongs to. -/
def pathsThrough (t : TypeTable) (timestamp : String) (inner : TypeId → FieldPath → FieldPaths)
    (path : FieldPath) (p : Property) : FieldPaths :=
  match p.type.bind (t.fieldType? timestamp) with
  | none => []
  | some (.leaf name) => if name = timestamp then [path ++ [p.name]] else []
  | some (.structured id) => inner id (path ++ [p.name])

/-- The paths below a type, followed for so many steps; the types on the way are not entered. -/
def pathsBelow (t : TypeTable) (timestamp : String) :
    Nat → List TypeId → TypeId → FieldPath → FieldPaths
  | 0, _, _, _ => []
  | steps + 1, onWay, id, path =>
    if id ∈ onWay then []
    else (t.properties id).flatMap
      (t.pathsThrough timestamp (t.pathsBelow timestamp steps (id :: onWay)) path)

/-- A field of a structured type leads to a class or an interface of the table. -/
theorem WellFormed.lt_of_fieldType? (ht : t.WellFormed) {declared : TypeExpr} {id : TypeId}
    (h : t.fieldType? timestamp declared = some (.structured id)) :
    id < t.entries.length ∧ t.isStructured id = true := by
  have hread := ht.fieldType?_readAs timestamp declared
  rw [h] at hread
  generalize t.fieldForm? declared = x at hread
  cases hread with
  | some hread =>
    cases hread with
    | structured he _ => exact ⟨lt_of_entryAt? he, isStructured_iff.2 ⟨_, he⟩⟩

theorem Ensures.mapM {α β : Type} {f : α → Entering β} {g : α → β} {as : List α} (ht : t.WellFormed)
    (h : ∀ a ∈ as, ∀ u, t.Extends u → u.WellFormed → Ensures u (f a) fun b _ => b = g a) :
    Ensures t (as.mapM f) fun bs _ => bs = as.map g := by
  induction as generalizing t with
  | nil => exact Ensures.pure ht rfl
  | cons a as ih =>
    rw [List.mapM_cons]
    refine (h a List.mem_cons_self t (Extends.refl t) ht).bind fun b u hu hwf hb => ?_
    refine (ih hwf fun c hc v hv => h c (List.mem_cons_of_mem a hc) v (hu.trans hv)).bind
      fun bs v _ hwf hbs => Ensures.pure hwf ?_
    rw [hb, hbs, List.map_cons]

/-- A property contributes to the walk what it contributes on the table the walk starts from. -/
theorem ensures_fieldPaths (ht : t.WellFormed) (htu : t.Extends u) (hu : u.WellFormed)
    {walk : TypeId → FieldPath → Entering FieldPaths} {inner : TypeId → FieldPath → FieldPaths}
    (h : ∀ id, id < t.entries.length → ∀ path v, t.Extends v → v.WellFormed →
      Ensures v (walk id path) fun found _ => found = inner id path)
    (path : FieldPath) (p : Property) :
    Ensures u (fieldPaths timestamp walk path p) fun found _ =>
      found = t.pathsThrough timestamp inner path p := by
  rw [fieldPaths.eq_def, pathsThrough]
  cases p.type with
  | none => exact Ensures.pure hu rfl
  | some declared =>
    have hclassify : Ensures u (classify timestamp declared).run fun r _ =>
        r = t.fieldType? timestamp declared :=
      ⟨(ensures_classify hu timestamp declared).extend,
        (ensures_classify hu timestamp declared).wellFormed,
        htu.fieldType?_eq ht hu timestamp declared⟩
    refine hclassify.bind fun r v huv hv hr => ?_
    rw [Option.bind_some, ← hr]
    rcases r with _ | ⟨name | id⟩
    · exact Ensures.pure hv rfl
    · exact Ensures.pure hv rfl
    · exact h id (ht.lt_of_fieldType? hr.symm).1 _ v (htu.trans huv) hv

/-- The walk finds on every extension of a table what is to be found on the table. -/
theorem ensures_walk (ht : t.WellFormed) (steps : Nat) (onWay : List TypeId) {id : TypeId}
    (path : FieldPath) (htu : t.Extends u) (hu : u.WellFormed)
    (hid : u.properties id = t.properties id) :
    Ensures u (walk timestamp steps onWay id path) fun found _ =>
      found = t.pathsBelow timestamp steps onWay id path := by
  induction steps generalizing onWay id path u with
  | zero => exact Ensures.pure hu rfl
  | succ steps ih =>
    rw [walk, pathsBelow]
    split
    · exact Ensures.pure hu rfl
    · -- the table grows while the properties are followed; each of them starts where the last ended
      have hinner : ∀ next, next < t.entries.length → ∀ path v, t.Extends v → v.WellFormed →
          Ensures v (walk timestamp steps (id :: onWay) next path) fun found _ =>
            found = t.pathsBelow timestamp steps (id :: onWay) next path :=
        fun next hnext path v htv hv =>
          ih (id :: onWay) path htv hv (htv.properties_eq ht hv hnext)
      have hfields : ∀ p ∈ t.properties id, ∀ v, u.Extends v → v.WellFormed →
          Ensures v (fieldPaths timestamp (walk timestamp steps (id :: onWay)) path p) fun found _ =>
            found = t.pathsThrough timestamp (t.pathsBelow timestamp steps (id :: onWay)) path p :=
        fun p _ v huv hv => ensures_fieldPaths ht (htu.trans huv) hv hinner path p
      refine Ensures.get ?_
      rw [hid]
      refine (Ensures.mapM hu hfields).bind fun found v _ hv hfound => Ensures.pure hv ?_
      rw [hfound, List.flatMap_def]

/-- Discovery finds the paths below the root on the table it is given. -/
theorem WellFormed.run_discover (ht : t.WellFormed) (timestamp : String) (id : TypeId)
    (path : FieldPath) : ((discover timestamp id path).run t).1 =
      t.pathsBelow timestamp (t.structuredCount + 1) [] id path :=
  (ensures_walk ht _ [] path (Extends.refl t) ht rfl).result

/-- Discovery leaves a well-formed table. -/
theorem WellFormed.run_discover_wellFormed (ht : t.WellFormed) (timestamp : String) (id : TypeId)
    (path : FieldPath) : ((discover timestamp id path).run t).2.WellFormed :=
  (ensures_walk ht _ [] path (Extends.refl t) ht rfl).wellFormed

/-! ### Tables with names alike -/

section Twins

variable (h : t.SameNames u) (ht : t.WellFormed) (hu : u.WellFormed)

include h ht hu

/-- A property contributes the same when types that stand for the same have the same paths. -/
theorem SameNames.pathsThrough_eq {inner inner' : TypeId → FieldPath → FieldPaths}
    (hinner : ∀ i j path, Twin t u i j → inner i path = inner' j path) (path : FieldPath)
    (p : Property) :
    t.pathsThrough timestamp inner path p = u.pathsThrough timestamp inner' path p := by
  rw [pathsThrough, pathsThrough]
  cases p.type with
  | none => rfl
  | some declared =>
    have hrel := h.fieldType?_rel ht hu timestamp declared
    rw [Option.bind_some, Option.bind_some]
    generalize t.fieldType? timestamp declared = a at hrel ⊢
    generalize u.fieldType? timestamp declared = b at hrel ⊢
    cases hrel with
    | none => rfl
    | some hab =>
      cases hab with
      | leaf => rfl
      | structured hij => exact hinner _ _ _ hij

/-- Types that stand for the same have the same paths below them. -/
theorem SameNames.pathsBelow_eq (steps : Nat) {onWay onWay' : List TypeId} {i j : TypeId}
    (hway : List.Forall₂ (Twin t u) onWay onWay') (hij : Twin t u i j) (path : FieldPath) :
    t.pathsBelow timestamp steps onWay i path = u.pathsBelow timestamp steps onWay' j path := by
  induction steps generalizing onWay onWay' i j path with
  | zero => rfl
  | succ steps ih =>
    rw [pathsBelow, pathsBelow]
    by_cases hmem : i ∈ onWay
    · rw [if_pos hmem, if_pos ((hij.mem_iff ht hu hway).1 hmem)]
    · rw [if_neg hmem, if_neg (mt (hij.mem_iff ht hu hway).2 hmem), h.properties_eq ht hu hij]
      exact congrArg (List.flatMap · _) (funext fun p =>
        h.pathsThrough_eq ht hu (fun _ _ path hkl => ih (.cons hij hway) hkl path) path p)

end Twins

/-- The paths inside the type that an expression resolves to. -/
def pathsOf? (t : TypeTable) (timestamp : String) (path : FieldPath) (e : TypeExpr) :
    Option FieldPaths :=
  match (resolve e).run.run t with
  | (none, _) => none
  | (some id, u) => some ((discover timestamp id path).run u).1

/-- Tables with names alike have the same paths inside the type of an expression. -/
theorem SameNames.pathsOf?_eq (h : t.SameNames u) (ht : t.WellFormed) (hu : u.WellFormed)
    (timestamp : String) (path : FieldPath) (e : TypeExpr) :
    t.pathsOf? timestamp path e = u.pathsOf? timestamp path e := by
  obtain ⟨hext, hwf, hform⟩ := ensures_resolve e ht
  obtain ⟨hext', hwf', hform'⟩ := ensures_resolve e hu
  rw [← h.names] at hform'
  -- the two tables may number types differently, but the expression stands for one form in both
  rw [pathsOf?, pathsOf?]
  generalize (resolve e).run.run t = resolved at hext hwf hform ⊢
  generalize (resolve e).run.run u = resolved' at hext' hwf' hform' ⊢
  generalize e.normal? t.nameForm? = x at hform hform'
  obtain ⟨r, v⟩ := resolved
  obtain ⟨r', v'⟩ := resolved'
  cases hform with
  | none => cases hform'; rfl
  | some hi =>
    cases hform' with
    | some hj =>
      have hlater : v.SameNames v' := h.extend ht hu hext hext'
      simp only
      rw [hwf.run_discover, hwf'.run_discover, hlater.structuredCount_eq hwf hwf',
        hlater.pathsBelow_eq hwf hwf' _ .nil (hi.twin hj)]

/-! ### Ways to dates -/

/-- A way along the properties of types that ends at a date: the positions of the properties it goes
through, their names, and the types they belong to. -/
inductive Way (t : TypeTable) (timestamp : String) :
    TypeId → List Nat → FieldPath → List TypeId → Prop
  /-- The last property is a date. -/
  | last {id : TypeId} {place : Nat} {p : Property} {declared : TypeExpr}
    (hp : (t.properties id)[place]? = some p) (hdeclared : p.type = some declared)
    (hfield : t.fieldType? timestamp declared = some (.leaf timestamp)) :
    Way t timestamp id [place] [p.name] [id]
  /-- Any other property leads into a class or an interface. -/
  | onward {id next : TypeId} {place : Nat} {p : Property} {declared : TypeExpr}
    {places : List Nat} {fields : FieldPath} {types : List TypeId}
    (hp : (t.properties id)[place]? = some p) (hdeclared : p.type = some declared)
    (hfield : t.fieldType? timestamp declared = some (.structured next))
    (hrest : Way t timestamp next places fields types) :
    Way t timestamp id (place :: places) (p.name :: fields) (id :: types)

/-- The path leads from the root, behind `path`, to a date, through types that are all different;
`places` are the positions of its properties. -/
def Leads (t : TypeTable) (timestamp : String) (root : TypeId) (path q : FieldPath)
    (places : List Nat) : Prop :=
  ∃ fields types, t.Way timestamp root places fields types ∧ types.Nodup ∧ q = path ++ fields

/-- Two properties of a type with the same name stand at the same place. -/
theorem properties_inj {id : TypeId} {i j : Nat} {p q : Property}
    (hi : (t.properties id)[i]? = some p) (hj : (t.properties id)[j]? = some q)
    (hn : p.name = q.name) : i = j := by
  have hnodup : ((t.properties id).map PropertyOf.name).Nodup := nodup_map_distinctBy _ _
  have hi' : ((t.properties id).map PropertyOf.name)[i]? = some p.name := by
    rw [List.getElem?_map, hi, Option.map_some]
  have hj' : ((t.properties id).map PropertyOf.name)[j]? = some p.name := by
    rw [List.getElem?_map, hj, Option.map_some, hn]
  exact (List.getElem?_inj (List.getElem?_eq_some_iff.1 hi').1 hnodup).1 (hi'.trans hj'.symm)

/-- Behind its first type a way only meets classes and interfaces. -/
theorem Way.types_eq (ht : t.WellFormed) {id : TypeId} {places : List Nat} {fields : FieldPath}
    {types : List TypeId} (h : t.Way timestamp id places fields types) :
    ∃ rest, types = id :: rest ∧ ∀ m ∈ rest, t.isStructured m = true := by
  induction h with
  | last => exact ⟨[], rfl, by simp⟩
  | @onward id next _ _ _ _ _ types _ _ hfield _ ih =>
    obtain ⟨rest, hrest, hs⟩ := ih
    refine ⟨types, rfl, ?_⟩
    rw [hrest]
    exact List.forall_mem_cons.2 ⟨(ht.lt_of_fieldType? hfield).2, hs⟩

/-- There are no more different classes and interfaces than the table has. -/
theorem length_le_structuredCount {types : List TypeId} (hnodup : types.Nodup)
    (hs : ∀ m ∈ types, t.isStructured m = true) : types.length ≤ t.structuredCount := by
  have hsub : types ⊆ t.entries.findIdxs Entry.isObject := by
    intro m hm
    obtain ⟨d, hd⟩ := isStructured_iff.1 (hs m hm)
    obtain ⟨hlt, he⟩ := List.getElem?_eq_some_iff.1 hd
    exact List.mem_findIdxs_iff_exists_getElem_pos.2 ⟨hlt, by rw [he]; rfl⟩
  rw [structuredCount, ← List.length_findIdxs]
  exact hnodup.length_le_of_subset hsub

/-! ### What is found -/

/-- What a property contributes comes from a date or from the type it leads into. -/
theorem mem_pathsThrough {inner : TypeId → FieldPath → FieldPaths} {path q : FieldPath}
    {p : Property} : q ∈ t.pathsThrough timestamp inner path p ↔ ∃ declared, p.type = some declared ∧
      ((t.fieldType? timestamp declared = some (.leaf timestamp) ∧ q = path ++ [p.name]) ∨
        ∃ next, t.fieldType? timestamp declared = some (.structured next) ∧
          q ∈ inner next (path ++ [p.name])) := by
  rw [pathsThrough]
  cases p.type with
  | none => simp
  | some declared =>
    rw [Option.bind_some]
    cases hfield : t.fieldType? timestamp declared with
    | none => simp [hfield]
    | some field =>
      cases field with
      | leaf name => by_cases hname : name = timestamp <;> simp [hfield, hname]
      | structured next => simp [hfield]

/-- A bounded walk finds the ways within its bound on which no type is met twice. -/
theorem mem_pathsBelow {steps : Nat} {onWay : List TypeId} {id : TypeId} {path q : FieldPath} :
    q ∈ t.pathsBelow timestamp steps onWay id path ↔ ∃ places fields types,
      t.Way timestamp id places fields types ∧ types.Nodup ∧ (∀ m ∈ types, m ∉ onWay) ∧
        types.length ≤ steps ∧ q = path ++ fields := by
  induction steps generalizing onWay id path with
  | zero =>
    refine ⟨fun h => by simp [pathsBelow] at h, ?_⟩
    rintro ⟨places, fields, types, hway, -, -, hlen, -⟩
    cases hway <;> simp at hlen
  | succ steps ih =>
    rw [pathsBelow]
    by_cases hid : id ∈ onWay
    · rw [if_pos hid]
      refine ⟨fun h => by simp at h, ?_⟩
      rintro ⟨places, fields, types, hway, -, hnot, -, -⟩
      cases hway <;> exact absurd hid (hnot id List.mem_cons_self)
    rw [if_neg hid, List.mem_flatMap]
    simp only [mem_pathsThrough]
    constructor
    · rintro ⟨p, hp, declared, hdeclared, ⟨hfield, rfl⟩ | ⟨next, hfield, hq⟩⟩ <;>
        obtain ⟨place, hplace⟩ := List.mem_iff_getElem?.1 hp
      · exact ⟨[place], [p.name], [id], .last hplace hdeclared hfield, by simp, by simpa using hid,
          by simp, rfl⟩
      · obtain ⟨places, fields, types, hway, hnodup, hnot, hlen, rfl⟩ := ih.1 hq
        refine ⟨place :: places, p.name :: fields, id :: types, .onward hplace hdeclared hfield hway,
          List.nodup_cons.2 ⟨fun hmem => hnot id hmem List.mem_cons_self, hnodup⟩, ?_,
          Nat.succ_le_succ hlen, by simp⟩
        exact List.forall_mem_cons.2 ⟨hid, fun m hm hmem => hnot m hm (List.mem_cons_of_mem id hmem)⟩
    · rintro ⟨places, fields, types, hway, hnodup, hnot, hlen, rfl⟩
      cases hway with
      | last hp hdeclared hfield =>
        exact ⟨_, List.mem_of_getElem? hp, _, hdeclared, .inl ⟨hfield, rfl⟩⟩
      | @onward _ next place p declared places fields types hp hdeclared hfield hrest =>
        obtain ⟨hnew, hnodup⟩ := List.nodup_cons.1 hnodup
        refine ⟨p, List.mem_of_getElem? hp, declared, hdeclared, .inr ⟨next, hfield, ih.2 ?_⟩⟩
        refine ⟨places, fields, types, hrest, hnodup, fun m hm hmem => ?_,
          Nat.le_of_succ_le_succ hlen, by simp⟩
        rcases List.mem_cons.1 hmem with rfl | hmem
        · exact hnew hm
        · exact hnot m (List.mem_cons_of_mem id hm) hmem

/-- The bound of discovery leaves no way out. -/
theorem WellFormed.mem_discover (ht : t.WellFormed) {root : TypeId} {path q : FieldPath} :
    q ∈ t.pathsBelow timestamp (t.structuredCount + 1) [] root path ↔
      ∃ places, t.Leads timestamp root path q places := by
  rw [mem_pathsBelow]
  constructor
  · rintro ⟨places, fields, types, hway, hnodup, -, -, hq⟩
    exact ⟨places, fields, types, hway, hnodup, hq⟩
  · rintro ⟨places, fields, types, hway, hnodup, hq⟩
    refine ⟨places, fields, types, hway, hnodup, by simp, ?_, hq⟩
    obtain ⟨rest, rfl, hs⟩ := hway.types_eq ht
    exact Nat.succ_le_succ (length_le_structuredCount (List.nodup_cons.1 hnodup).2 hs)

/-! ### The order -/

/-- Paths come in the order of the positions of their properties. -/
def Before (t : TypeTable) (timestamp : String) (id : TypeId) (path q q' : FieldPath) : Prop :=
  ∀ places fields types places' fields' types', t.Way timestamp id places fields types →
    t.Way timestamp id places' fields' types' → q = path ++ fields → q' = path ++ fields' →
      places < places'

/-- The first name of a way tells its first property. -/
theorem Way.cons_inv {id : TypeId} {places : List Nat} {name : String} {fields : FieldPath}
    {types : List TypeId} (h : t.Way timestamp id places (name :: fields) types) {place : Nat}
    {p : Property} (hp : (t.properties id)[place]? = some p) (hn : p.name = name) :
    ∃ places', places = place :: places' ∧ ∀ declared next, p.type = some declared →
      t.fieldType? timestamp declared = some (.structured next) →
        ∃ types', t.Way timestamp next places' fields types' := by
  cases h with
  | last hp' hdeclared' hfield' =>
    obtain rfl := properties_inj hp hp' hn
    obtain rfl := Option.some.inj (hp.symm.trans hp')
    refine ⟨[], rfl, fun declared next hdeclared hfield => ?_⟩
    rw [hdeclared'] at hdeclared
    cases hdeclared
    rw [hfield'] at hfield
    cases hfield
  | @onward _ _ _ _ _ places' _ types' hp' hdeclared' hfield' hrest =>
    obtain rfl := properties_inj hp hp' hn
    obtain rfl := Option.some.inj (hp.symm.trans hp')
    refine ⟨places', rfl, fun declared next hdeclared hfield => ⟨types', ?_⟩⟩
    rw [hdeclared'] at hdeclared
    cases hdeclared
    rw [hfield'] at hfield
    cases hfield
    exact hrest

/-- Every path that a property contributes goes through the property. -/
theorem exists_eq_of_mem_pathsThrough {steps : Nat} {onWay : List TypeId} {path q : FieldPath}
    {p : Property} (h : q ∈ t.pathsThrough timestamp (t.pathsBelow timestamp steps onWay) path p) :
    ∃ fields, q = path ++ p.name :: fields := by
  obtain ⟨declared, -, ⟨-, rfl⟩ | ⟨next, -, hq⟩⟩ := mem_pathsThrough.1 h
  · exact ⟨[], rfl⟩
  · obtain ⟨places, fields, types, -, -, -, -, rfl⟩ := mem_pathsBelow.1 hq
    exact ⟨fields, by simp⟩

/-- Paths through a property are ordered like the paths below the type it leads into. -/
theorem Before.through {id next : TypeId} {place : Nat} {p : Property} {declared : TypeExpr}
    {path q q' : FieldPath} (hp : (t.properties id)[place]? = some p)
    (hdeclared : p.type = some declared)
    (hfield : t.fieldType? timestamp declared = some (.structured next))
    (hq : ∃ fields, q = path ++ p.name :: fields) (hq' : ∃ fields, q' = path ++ p.name :: fields)
    (h : t.Before timestamp next (path ++ [p.name]) q q') : t.Before timestamp id path q q' := by
  obtain ⟨rest, rfl⟩ := hq
  obtain ⟨rest', rfl⟩ := hq'
  intro places fields types places' fields' types' hway hway' he he'
  obtain rfl := List.append_cancel_left he
  obtain rfl := List.append_cancel_left he'
  obtain ⟨tail, rfl, htail⟩ := hway.cons_inv hp rfl
  obtain ⟨tail', rfl, htail'⟩ := hway'.cons_inv hp rfl
  obtain ⟨types, hway⟩ := htail declared next hdeclared hfield
  obtain ⟨types', hway'⟩ := htail' declared next hdeclared hfield
  exact List.cons_lt_cons_iff.2
    (.inr ⟨rfl, h _ _ _ _ _ _ hway hway' (by simp) (by simp)⟩)

/-- The paths through one property are in order if those below the type it leads into are. -/
theorem pathsThrough_pairwise {steps : Nat} {onWay : List TypeId} {id : TypeId} {path : FieldPath}
    {place : Nat} {p : Property} (hp : (t.properties id)[place]? = some p)
    (hinner : ∀ next path, (t.pathsBelow timestamp steps onWay next path).Pairwise
      (t.Before timestamp next path)) :
    (t.pathsThrough timestamp (t.pathsBelow timestamp steps onWay) path p).Pairwise
      (t.Before timestamp id path) := by
  have hthrough : ∀ q ∈ t.pathsThrough timestamp (t.pathsBelow timestamp steps onWay) path p,
      ∃ fields, q = path ++ p.name :: fields := fun q => exists_eq_of_mem_pathsThrough
  rw [pathsThrough] at hthrough ⊢
  split
  · exact .nil
  · split
    · exact List.pairwise_singleton _ _
    · exact .nil
  · rename_i next hfield
    obtain ⟨declared, hdeclared, hfield⟩ := Option.bind_eq_some_iff.1 hfield
    rw [hdeclared, Option.bind_some, hfield] at hthrough
    refine (hinner next (path ++ [p.name])).imp_of_mem fun hq hq' h => ?_
    exact h.through hp hdeclared hfield (hthrough _ hq) (hthrough _ hq')

/-- Paths through different properties are in the order of these. -/
theorem Before.of_lt {steps : Nat} {onWay : List TypeId} {id : TypeId} {path q q' : FieldPath}
    {i j : Nat} {p p' : Property} (hp : (t.properties id)[i]? = some p)
    (hp' : (t.properties id)[j]? = some p') (hij : i < j)
    (hq : q ∈ t.pathsThrough timestamp (t.pathsBelow timestamp steps onWay) path p)
    (hq' : q' ∈ t.pathsThrough timestamp (t.pathsBelow timestamp steps onWay) path p') :
    t.Before timestamp id path q q' := by
  obtain ⟨rest, rfl⟩ := exists_eq_of_mem_pathsThrough hq
  obtain ⟨rest', rfl⟩ := exists_eq_of_mem_pathsThrough hq'
  intro places fields types places' fields' types' hway hway' he he'
  obtain rfl := List.append_cancel_left he
  obtain rfl := List.append_cancel_left he'
  obtain ⟨tail, rfl, -⟩ := hway.cons_inv hp rfl
  obtain ⟨tail', rfl, -⟩ := hway'.cons_inv hp' rfl
  exact List.cons_lt_cons_iff.2 (.inl hij)

/-- The walk finds its paths in order. -/
theorem pathsBelow_pairwise (steps : Nat) (onWay : List TypeId) (id : TypeId) (path : FieldPath) :
    (t.pathsBelow timestamp steps onWay id path).Pairwise (t.Before timestamp id path) := by
  induction steps generalizing onWay id path with
  | zero => exact .nil
  | succ steps ih =>
    rw [pathsBelow]
    split
    · exact .nil
    refine List.pairwise_flatMap.2 ⟨fun p hp => ?_, ?_⟩
    · obtain ⟨place, hplace⟩ := List.mem_iff_getElem?.1 hp
      exact pathsThrough_pairwise hplace fun next path => ih (id :: onWay) next path
    · refine List.pairwise_iff_getElem.2 fun i j hi hj hij q hq q' hq' => ?_
      exact Before.of_lt (List.getElem?_eq_getElem hi) (List.getElem?_eq_getElem hj) hij hq hq'

/-- Discovery on any table that operations lead to finds exactly the paths that lead to dates through
types that are all different.  No path is found twice, and the paths are in the order of a
depth-first walk: that of the positions of their properties. -/
theorem discover_spec (ops : List Operation) (timestamp : String) (root : TypeId)
    (path : FieldPath) :
    (∀ q, q ∈ ((discover timestamp root path).run (ofOperations ops)).1 ↔
      ∃ places, (ofOperations ops).Leads timestamp root path q places) ∧
    ((discover timestamp root path).run (ofOperations ops)).1.Nodup ∧
    ((discover timestamp root path).run (ofOperations ops)).1.Pairwise fun q q' =>
      ∀ places places', (ofOperations ops).Leads timestamp root path q places →
        (ofOperations ops).Leads timestamp root path q' places' → places < places' := by
  have ht := wellFormed_ofOperations ops
  generalize ofOperations ops = t at ht ⊢
  rw [ht.run_discover]
  have hmem : ∀ q, q ∈ t.pathsBelow timestamp (t.structuredCount + 1) [] root path ↔
      ∃ places, t.Leads timestamp root path q places := fun q => ht.mem_discover
  have horder : (t.pathsBelow timestamp (t.structuredCount + 1) [] root path).Pairwise fun q q' =>
      ∀ places places', t.Leads timestamp root path q places →
        t.Leads timestamp root path q' places' → places < places' := by
    refine (pathsBelow_pairwise _ [] root path).imp fun h places places' hq hq' => ?_
    obtain ⟨fields, types, hway, -, hq⟩ := hq
    obtain ⟨fields', types', hway', -, hq'⟩ := hq'
    exact h _ _ _ _ _ _ hway hway' hq hq'
  refine ⟨hmem, horder.imp_of_mem fun {q q'} hq _ h => ?_, horder⟩
  rintro rfl
  obtain ⟨places, hplaces⟩ := (hmem q).1 hq
  exact List.lt_irrefl places (h places places hplaces hplaces)

end DateFields.TypeTable
