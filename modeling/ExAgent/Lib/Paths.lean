import ExAgent.Lib.PyJson

/-!
# Paths

A path of POSIX is a list of components; it may start at the root. Empty components and `.` are left
out when a text is read, `..` stays until the file system resolves the path.
-/

namespace ExAgent.Lib

/-- A path. -/
structure PosixPath where
  absolute : Bool
  parts : List PyText
deriving DecidableEq

namespace PosixPath

/-- The path of a text. -/
def ofText (text : PyText) : PosixPath where
  absolute := text.head? = some 47
  parts := (text.splitOn 47).filter fun part => part ≠ [] ∧ part ≠ [46]

/-- A path taken from a directory; an absolute one stays. -/
def join (directory path : PosixPath) : PosixPath :=
  if path.absolute then path else { directory with parts := directory.parts ++ path.parts }

/-- The directory of a path. -/
def parent (p : PosixPath) : PosixPath := { p with parts := p.parts.dropLast }

/-- The directories above a path. -/
def parents (p : PosixPath) : List PosixPath :=
  p.parts.inits.dropLast.reverse.map fun parts => { p with parts }

/-- The path of components, joined by slashes. -/
theorem ofText_intercalate {parts : List PyText} (hne : parts ≠ [])
    (hparts : ∀ part ∈ parts, 47 ∉ part ∧ part ≠ [] ∧ part ≠ [46]) :
    ofText (List.intercalate [47] parts) = ⟨false, parts⟩ := by
  have hsplit : (List.intercalate [47] parts).splitOn 47 = parts :=
    List.splitOn_intercalate 47 (fun part hp => (hparts part hp).1) hne
  have hhead : (List.intercalate [47] parts).head? ≠ some 47 := by
    intro h
    obtain ⟨rest, hrest⟩ := List.head?_eq_some_iff.mp h
    -- The text before the slash would be an empty component.
    have hcons : [] :: rest.splitOn 47 = parts := by
      rw [← hsplit, hrest]
      exact (List.splitOn_append_cons_self [] rest).symm
    have hmem : [] ∈ parts := hcons ▸ List.mem_cons_self
    exact (hparts [] hmem).2.1 rfl
  have hfilter : parts.filter (fun part => part ≠ [] ∧ part ≠ [46]) = parts :=
    List.filter_eq_self.mpr fun part hp => by simpa using (hparts part hp).2
  unfold ofText
  rw [hsplit, hfilter]
  simpa using hhead

end PosixPath

end ExAgent.Lib
