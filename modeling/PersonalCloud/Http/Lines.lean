import Mathlib.Data.List.DropRight
import PersonalCloud.Lib.Feed
import PersonalCloud.Lib.StdString

/-!
# Lines of a message

Both parsers break what they are given into lines that end with `\n`, and keep the last one if its
end is missing.

## Main definitions

* `splitLine` — the first line of a buffer, and what comes behind it.
* `stripNewline`, `stripBlanks` — a line without its end, and a value without blanks around it.
-/

namespace PersonalCloud.Http

open PersonalCloud.Lib

def newline : UInt8 :=
  ascii '\n'

/-- The first line with its end, or all if there is no end, and the rest. -/
def splitLine : List UInt8 → List UInt8 × List UInt8
  | [] => ([], [])
  | c :: buf => if c = newline then ([c], buf) else (c :: (splitLine buf).1, (splitLine buf).2)

/-- `strip_newline`. -/
def stripNewline (line : List UInt8) : List UInt8 :=
  line.rdropWhile fun c => c = newline ∨ c = ascii '\r'

def stripBlanks (value : List UInt8) : List UInt8 :=
  (value.dropWhile isspace).rdropWhile isspace

variable {a b : List UInt8}

theorem splitLine_of_notMem (h : newline ∉ a) : splitLine a = (a, []) := by
  induction a with
  | nil => rfl
  | cons c a ih =>
    obtain ⟨hc, ha⟩ := not_or.1 fun h' => h (List.mem_cons.2 h')
    rw [splitLine, if_neg (Ne.symm hc), ih ha]

theorem splitLine_append (h : newline ∉ a) (b : List UInt8) :
    splitLine (a ++ newline :: b) = (a ++ [newline], b) := by
  induction a with
  | nil => exact if_pos rfl
  | cons c a ih =>
    obtain ⟨hc, ha⟩ := not_or.1 fun h' => h (List.mem_cons.2 h')
    rw [List.cons_append, splitLine, if_neg (Ne.symm hc), ih ha]
    rfl

/-- A buffer has no end of a line, or a first one. -/
theorem notMem_or_split (buf : List UInt8) : newline ∉ buf ∨
    ∃ a b, buf = a ++ newline :: b ∧ newline ∉ a := by
  obtain h | ⟨a, d, b, rfl, ha, hd⟩ := forall_notMem_or_split [newline] buf
  · exact .inl fun hmem => h newline hmem (List.mem_singleton.2 rfl)
  · obtain rfl := List.mem_singleton.1 hd
    exact .inr ⟨a, b, rfl, fun hmem => ha newline hmem (List.mem_singleton.2 rfl)⟩

theorem getLast?_append_ne (line : List UInt8) (ha : newline ∉ a) (hne : a ≠ []) :
    (line ++ a).getLast? ≠ some newline := by
  rw [List.getLast?_append_of_ne_nil _ hne]
  exact fun h => ha (List.mem_of_getLast? h)

end PersonalCloud.Http
