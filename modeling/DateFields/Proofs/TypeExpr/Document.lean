import DateFields.Proofs.Json.Loosened
import DateFields.TypeExpr.Document

/-!
# Reading type expressions back

Every document of a type expression, with whatever liberties it is written, is read as that type
expression (`TypeExpr.reads_toJson`), as long as it fits.
-/

namespace DateFields

open Json

namespace TypeExpr

theorem decode_null (depth : Nat) : decode depth .null = none := by
  cases depth <;> rfl

theorem toJsonAll_eq (es : List TypeExpr) : toJsonAll es = es.map toJson := by
  induction es with
  | nil => rfl
  | cons e es ih => rw [toJsonAll, ih, List.map_cons]

theorem toJsonMembers_eq (ms : List Property) : toJsonMembers ms = ms.map toJsonMember := by
  induction ms with
  | nil => rfl
  | cons m ms ih => rw [toJsonMembers, ih, List.map_cons]

theorem toJsonMember_eq (m : Property) :
    toJsonMember m = .object [("name", .string m.name), ("type", .ofOption toJson m.type)] := by
  obtain ⟨name, type⟩ := m
  cases type <;> rw [toJsonMember] <;> rfl

/-- A member is read when its type is. -/
theorem reads_toJsonMember {m : Property}
    (h : ∀ e, m.type = some e → ∀ room, Reads room (decode room) e.toJson e) (room : Nat) :
    Reads room (PropertyOf.decode (decode room)) (toJsonMember m) m := by
  rw [toJsonMember_eq]
  refine reads_object (fun room => PropertyOf.decode (decode room)) (fun room ws hws => ?_) room
  have hname := hws.text "name" rfl rfl
  have htype := hws.optional "type" rfl rfl (decode_null (room + 1)) fun e he =>
    (h e he (room + 1)).mono (Nat.le_succ room)
  simp [PropertyOf.decode, fields?, hname, htype]

mutual

theorem reads_toJson : ∀ (e : TypeExpr) (room : Nat), Reads room (decode room) e.toJson e
  | .array e, room => by
    rw [toJson]
    refine reads_object _ (fun room ws hws => ?_) room
    have hkind := hws.text "kind" rfl rfl
    have helement := hws.required "element" rfl rfl (decode_null room) (reads_toJson e room)
    simp [decode, fields?, hkind, helement]
  | .reference name args, room => by
    rw [toJson, toJsonAll_eq]
    refine reads_object _ (fun room ws hws => ?_) room
    have hkind := hws.text "kind" rfl rfl
    have hname := hws.text "name" rfl rfl
    have hargs := hws.items "args" rfl rfl fun e he => reads_toJsonAll args e he room
    simp [decode, fields?, hkind, hname, hargs]
  | .union members, room => by
    rw [toJson, toJsonAll_eq]
    refine reads_object _ (fun room ws hws => ?_) room
    have hkind := hws.text "kind" rfl rfl
    have hmembers := hws.required "members" rfl rfl rfl
      (reads_list fun e he => reads_toJsonAll members e he room)
    simp [decode, fields?, hkind, hmembers]
  | .intersection members, room => by
    rw [toJson, toJsonAll_eq]
    refine reads_object _ (fun room ws hws => ?_) room
    have hkind := hws.text "kind" rfl rfl
    have hmembers := hws.required "members" rfl rfl rfl
      (reads_list fun e he => reads_toJsonAll members e he room)
    simp [decode, fields?, hkind, hmembers]
  | .literal members, room => by
    rw [toJson, toJsonMembers_eq]
    refine reads_object _ (fun room ws hws => ?_) room
    have hkind := hws.text "kind" rfl rfl
    have hmembers := hws.items "members" rfl rfl fun m hm => reads_toJsonMembers members m hm room
    simp [decode, fields?, hkind, hmembers]
  | .parenthesized inner, room => by
    rw [toJson]
    refine reads_object _ (fun room ws hws => ?_) room
    have hkind := hws.text "kind" rfl rfl
    have hinner := hws.required "inner" rfl rfl (decode_null room) (reads_toJson inner room)
    simp [decode, fields?, hkind, hinner]
  | .keyword name, room => by
    rw [toJson]
    refine reads_object _ (fun room ws hws => ?_) room
    have hkind := hws.text "kind" rfl rfl
    have hname := hws.text "name" rfl rfl
    simp [decode, fields?, hkind, hname]
  | .other text, room => by
    rw [toJson]
    refine reads_object _ (fun room ws hws => ?_) room
    have hkind := hws.text "kind" rfl rfl
    have htext := hws.text "text" rfl rfl
    simp [decode, fields?, hkind, htext]

theorem reads_toJsonAll : ∀ (es : List TypeExpr), ∀ e ∈ es, ∀ room,
    Reads room (decode room) e.toJson e
  | [] => by simp
  | e :: es => List.forall_mem_cons.2 ⟨reads_toJson e, reads_toJsonAll es⟩

theorem reads_toJsonMembers : ∀ (ms : List Property), ∀ m ∈ ms, ∀ room,
    Reads room (PropertyOf.decode (decode room)) (toJsonMember m) m
  | [] => by simp
  | ⟨_, none⟩ :: ms =>
    List.forall_mem_cons.2 ⟨reads_toJsonMember (by simp), reads_toJsonMembers ms⟩
  | ⟨_, some e⟩ :: ms => List.forall_mem_cons.2
    ⟨reads_toJsonMember fun _ he => Option.some.inj he ▸ reads_toJson e, reads_toJsonMembers ms⟩

end

end TypeExpr

end DateFields
