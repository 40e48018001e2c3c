/-
Paths.

A path is kept as it is written, cut at its slashes, so that messages can show it.  Empty
segments and single dots count for nothing, but a single dot at the beginning of a path
that does not start at the root is a component of its own.
-/

namespace LeaseOrder.Files

/-- The parts of a text between slashes. -/
def cut : List Char → List (List Char)
  | [] => [[]]
  | c :: cs =>
    if c = '/' then [] :: cut cs
    else match cut cs with
      | [] => [[c]]
      | s :: ss => (c :: s) :: ss

/-- Parts with slashes between them. -/
def glue : List (List Char) → List Char
  | [] => []
  | [s] => s
  | s :: ss => s ++ '/' :: glue ss

/-- A path. -/
structure Path where
  /-- The path starts at the root. -/
  rooted : Bool
  /-- The parts between slashes, after the slash of the root. -/
  segments : List (List Char)
deriving DecidableEq, Repr

namespace Path

/-- The path with this text. -/
def ofString (s : String) : Path :=
  match s.toList with
  | '/' :: cs => ⟨true, cut cs⟩
  | cs => ⟨false, cut cs⟩

/-- The text of a path. -/
def text (p : Path) : String :=
  String.ofList ((if p.rooted then ['/'] else []) ++ glue p.segments)

/-- The text is empty. -/
def isEmpty (p : Path) : Bool :=
  p.text.isEmpty

/-- The segment at this place is a component. -/
def isComponent (p : Path) (place : Nat) (segment : List Char) : Bool :=
  segment ≠ [] && (segment ≠ ['.'] || (place = 0 && !p.rooted))

/-- The number of segments up to the last component. -/
def extent (p : Path) : Nat :=
  p.segments.zipIdx.foldl (fun n s => if p.isComponent s.2 s.1 then s.2 + 1 else n) 0

/-- The path without what comes after its last component. -/
def trimmed (p : Path) : Path :=
  { p with segments := p.segments.take p.extent }

/-- The path without its last component, if it has a component. -/
def parent? (p : Path) : Option Path :=
  if p.extent = 0 then none
  else some (trimmed { p with segments := p.segments.take (p.extent - 1) })

/-- The last component, if it is a name. -/
def fileName? (p : Path) : Option (List Char) :=
  match p.trimmed.segments.getLast? with
  | none => none
  | some s => if s = ['.'] || s = ['.', '.'] then none else some s

/-- A name without its extension, which starts at the last dot that is not the first character. -/
def stem (name : List Char) : List Char :=
  match (name.reverse.dropWhile (· ≠ '.')).tail.reverse with
  | [] => name
  | s => s

/-- The path with another extension. It stays as it is where there is no name. Two dots are no
    name, so a name that is nothing else in front of its extension only loses the extension. -/
def withExtension (p : Path) (extension : String) : Path :=
  match p.fileName? with
  | none => p
  | some name =>
    let last :=
      if stem name = ['.'] && p.extent = p.segments.length then ['.', '.']
      else stem name ++ '.' :: extension.toList
    { p with segments := p.segments.take (p.extent - 1) ++ [last] }

/-- The path of a name inside a directory. -/
def join (p : Path) (name : String) : Path :=
  ofString (if p.text.endsWith "/" then p.text ++ name else p.text ++ "/" ++ name)

/-- The components as they are walked, dots included. -/
def steps (p : Path) : List (List Char) :=
  p.segments.filter (· ≠ [])

/-- The path ends with a slash that follows a component. -/
def endsInSlash (p : Path) : Bool :=
  p.segments.getLast? = some [] && p.steps ≠ []

/-- Taking a component off leaves fewer segments. -/
theorem parent?_segments_lt {p q : Path} (h : p.parent? = some q) :
    q.segments.length < p.segments.length := by
  have hext : ∀ (xs : List (List Char × Nat)) (n : Nat),
      (∀ s ∈ xs, s.2 < p.segments.length) → n ≤ p.segments.length →
      xs.foldl (fun n s => if p.isComponent s.2 s.1 then s.2 + 1 else n) n ≤ p.segments.length := by
    intro xs
    induction xs with
    | nil => intro n _ hn; exact hn
    | cons x xs ih =>
      intro n hx hn
      refine ih _ (fun s hs => hx s (.tail _ hs)) ?_
      have := hx x (.head _)
      dsimp only
      split <;> omega
  have hle : p.extent ≤ p.segments.length :=
    hext _ 0 (fun s hs => by simpa using (List.mem_zipIdx hs).2.1) (Nat.zero_le _)
  unfold parent? at h
  split at h
  · simp at h
  · simp only [Option.some.injEq] at h
    subst h
    simp only [trimmed, List.length_take]
    omega

end Path

end LeaseOrder.Files
