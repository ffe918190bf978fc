import Mathlib.Data.Nat.Notation

namespace SysUtils.Layouts

variable {ι β : Type} [DecidableEq ι]

structure Member (ι : Type) where
  name : ι
  size : ℕ
  count : ℕ := 1

def alignUp (a n : ℕ) : ℕ := (n + a - 1) / a * a

def place : ℕ → List (Member ι) → List (ι × ℕ × ℕ)
  | _, [] => []
  | n, m :: ms =>
      (m.name, alignUp m.size n, m.size * m.count) :: place (alignUp m.size n + m.size * m.count) ms

def span (layout : List (Member ι)) (i : ι) : ℕ × ℕ := ((place 0 layout).lookup i).getD (0, 0)

def byteSize (layout : List (Member ι)) : ℕ :=
  alignUp ((layout.map Member.size).foldl max 1)
    (((place 0 layout).getLast?.map fun m => m.2.1 + m.2.2).getD 0)

def bytesOf (layout : List (Member ι)) (i : ι) (bytes : List β) : List β :=
  (bytes.drop (span layout i).1).take (span layout i).2

theorem bytesOf_eq {layout : List (Member ι)} {i : ι} {start width : ℕ}
    (h : span layout i = (start, width)) (bytes : List β) :
    bytesOf layout i bytes = (bytes.drop start).take width := by
  rw [bytesOf, h]

end SysUtils.Layouts
