import BlockScript.Text.Clusters

/-!
# Lines as they are typed

A line may hold the marks of a key that takes back what was typed before it. Each takes back one
cluster, the latest that is left.

* `taken`: the line that is left when every such mark has been obeyed.

**A cluster that is taken back leaves no trace** (`Typed.type_backspace`), if it is under 256 bytes.
-/

namespace BlockScript.Console

/-! ## 1. What was typed -/

/-- The mark of the key that takes back. -/
def backspace : Char := '\x08'

/-- The size of characters in bytes. -/
def byteSize : List Char → Nat
  | [] => 0
  | c :: cs => c.utf8Size + byteSize cs

/-- What was typed. -/
structure Typed where
  /-- The characters, latest first. -/
  chars : List Char := []
  /-- The sizes of the clusters in bytes, latest first. A size is kept in one byte, so of a cluster
      of 256 bytes and more only what is left over can be taken back. -/
  sizes : List Nat := []

/-- Characters without the last ones, of a size in bytes; the latest come first. -/
def dropBytes : Nat → List Char → List Char
  | _, [] => []
  | n, c :: cs =>
    if n < c.utf8Size then c :: cs else dropBytes (n - c.utf8Size) cs

/-- What was typed, after one more cluster. -/
def Typed.type (t : Typed) (cluster : List Char) : Typed :=
  if cluster = [backspace] then
    match t.sizes with
    | [] => t
    | n :: sizes => { chars := dropBytes n t.chars, sizes }
  else
    { chars := cluster.reverse ++ t.chars, sizes := byteSize cluster % 256 :: t.sizes }

/-- The line that is left when every mark to take back has been obeyed. -/
def taken (line : String) : String :=
  String.ofList ((Text.clusters line.toList).foldl Typed.type {}).chars.reverse

/-! ## 2. Taking back -/

theorem byteSize_append (cs ds : List Char) : byteSize (cs ++ ds) = byteSize cs + byteSize ds := by
  induction cs with
  | nil => simp [byteSize]
  | cons c cs ih => simp [byteSize, ih, Nat.add_assoc]

theorem byteSize_reverse (cs : List Char) : byteSize cs.reverse = byteSize cs := by
  induction cs with
  | nil => rfl
  | cons c cs ih =>
    rw [List.reverse_cons, byteSize_append, ih]
    simp [byteSize, Nat.add_comm]

theorem dropBytes_zero (cs : List Char) : dropBytes 0 cs = cs := by
  cases cs with
  | nil => rfl
  | cons c cs => simp [dropBytes, c.utf8Size_pos]

/-- The size of the first characters drops just these. -/
theorem dropBytes_byteSize (cs rest : List Char) : dropBytes (byteSize cs) (cs ++ rest) = rest := by
  induction cs with
  | nil => exact dropBytes_zero rest
  | cons c cs ih =>
    have h : ¬ c.utf8Size + byteSize cs < c.utf8Size := by omega
    simp [byteSize, dropBytes, ih, h]

/-- **A cluster that is taken back leaves no trace.** -/
theorem Typed.type_backspace (t : Typed) (cluster : List Char) (h : cluster ≠ [backspace])
    (size : byteSize cluster < 256) : (t.type cluster).type [backspace] = t := by
  have dropped : dropBytes (byteSize cluster) (cluster.reverse ++ t.chars) = t.chars := by
    rw [← byteSize_reverse cluster]
    exact dropBytes_byteSize _ _
  simp [Typed.type, h, Nat.mod_eq_of_lt size, dropped]

end BlockScript.Console
