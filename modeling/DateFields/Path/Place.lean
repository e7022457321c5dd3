import DateFields.Path.Basic

/-!
# Places

Where a path leads when its components are walked on the text alone, without a look at any file.

* `Place` — a number of steps up from the start, or the root, and then ordinary names down;
* `Path.place` — the place a path leads to: `.` stays, `..` goes back one name, stays at the root,
  and counts a step up where there is no name to go back on;
* `Path.normalize` — the plain spelling of the place, `.` when it is the start itself.
-/

namespace DateFields

/-- Where a walk along a path begins. -/
inductive Place.Anchor where
  /-- The root. -/
  | root
  /-- The directory so many levels above the start. -/
  | above (levels : Nat)
  deriving DecidableEq, Repr

/-- A place told by the way to it: an anchor, and the names down from there. -/
structure Place where
  /-- Where the way begins. -/
  anchor : Place.Anchor
  /-- The names to follow, outermost first. -/
  names : List String
  deriving DecidableEq, Repr

namespace Place

/-- The start of every relative path. -/
def start : Place := ⟨.above 0, []⟩

/-- The place one component further. -/
def step (p : Place) : Path.Component → Place
  | .root => ⟨.root, []⟩
  | .here => p
  | .name s => ⟨p.anchor, p.names ++ [s]⟩
  | .up =>
    match p.names, p.anchor with
    | [], .root => p
    | [], .above n => ⟨.above (n + 1), []⟩
    | names, anchor => ⟨anchor, names.dropLast⟩

/-- The components that lead to a place without a detour. -/
def components (p : Place) : List Path.Component :=
  let names := p.names.map Path.Component.name
  match p.anchor with
  | .root => .root :: names
  | .above 0 => if names.isEmpty then [.here] else names
  | .above n => List.replicate n .up ++ names

/-- The plain spelling of a place. -/
def path (p : Place) : Path := Path.ofComponents p.components

end Place

namespace Path

/-- The place a path leads to. -/
def place (p : Path) : Place := p.components.foldl Place.step Place.start

/-- The plain spelling of the place a path leads to. -/
def normalize (p : Path) : Path := p.place.path

end Path

end DateFields
