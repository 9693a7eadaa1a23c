/-!
# KvmHost.Lib.Nested

Trees that are written out as they are walked: a node is opened, its leaves and its nodes follow,
and it is closed.

`Forest` is what stands between two brackets, a leaf or a node and then the rest. `spell` writes it
out; `parse` reads a list of tokens from its end, with a stack of what has been read and not opened
yet, so it always ends. `parse_spell` says that what is spelled is read back.
-/

namespace Nested

variable {ν π : Type}

inductive Token (ν π : Type) where
  | opening (name : ν)
  | leaf (value : π)
  | closing
deriving DecidableEq

inductive Forest (ν π : Type) where
  | nil
  | leaf (value : π) (rest : Forest ν π)
  | node (name : ν) (inner rest : Forest ν π)
deriving DecidableEq

namespace Forest

def spell : Forest ν π → List (Token ν π)
  | nil => []
  | leaf v rest => .leaf v :: rest.spell
  | node n inner rest => .opening n :: (inner.spell ++ .closing :: rest.spell)

/-- `f`, and then `g`. -/
def append : Forest ν π → Forest ν π → Forest ν π
  | nil, g => g
  | leaf v rest, g => .leaf v (rest.append g)
  | node n inner rest, g => .node n inner (rest.append g)

theorem append_nil (f : Forest ν π) : f.append nil = f := by
  induction f with
  | nil => rfl
  | leaf v rest ih => rw [append, ih]
  | node n inner rest _ ih => rw [append, ih]

/-- What is inside the first node of that name. -/
def child [DecidableEq ν] (name : ν) : Forest ν π → Option (Forest ν π)
  | nil => none
  | leaf _ rest => rest.child name
  | node n inner rest => if n = name then some inner else rest.child name

/-- What `pick` makes of the first leaf it takes. -/
def pick {α : Type} (p : π → Option α) : Forest ν π → Option α
  | nil => none
  | leaf v rest =>
    match p v with
    | some a => some a
    | none => rest.pick p
  | node _ _ rest => rest.pick p

end Forest

open Forest

/-- One token, read from the right. -/
def read : Token ν π → List (Forest ν π) → Option (List (Forest ν π))
  | .closing, st => some (.nil :: st)
  | .leaf v, f :: st => some (.leaf v f :: st)
  | .opening n, inner :: rest :: st => some (.node n inner rest :: st)
  | _, _ => none

def readAll (ts : List (Token ν π)) (st : List (Forest ν π)) : Option (List (Forest ν π)) :=
  match ts with
  | [] => some st
  | t :: ts => (readAll ts st).bind (read t)

def parse (ts : List (Token ν π)) : Option (Forest ν π) :=
  match readAll ts [.nil] with
  | some [f] => some f
  | _ => none

theorem readAll_append (ts us : List (Token ν π)) (st : List (Forest ν π)) :
    readAll (ts ++ us) st = (readAll us st).bind (readAll ts) := by
  induction ts with
  | nil =>
    cases h : readAll us st with
    | none => simp only [List.nil_append, h, Option.bind_none]
    | some st' => simp only [List.nil_append, h, Option.bind_some, readAll]
  | cons t ts ih =>
    simp only [List.cons_append, readAll, ih]
    cases readAll us st with
    | none => rfl
    | some st' => rfl

theorem readAll_spell (f : Forest ν π) :
    ∀ (g : Forest ν π) (st : List (Forest ν π)),
      readAll f.spell (g :: st) = some (f.append g :: st) := by
  induction f with
  | nil => intro g st; rfl
  | leaf v rest ih => intro g st; rw [spell, readAll, ih]; rfl
  | node n inner rest ihi ihr =>
    intro g st
    rw [spell, readAll, readAll_append, readAll, ihr]
    simp only [Option.bind_some, read, ihi, append_nil]
    rfl

theorem parse_spell (f : Forest ν π) : parse f.spell = some f := by
  rw [parse, readAll_spell, append_nil]

end Nested
