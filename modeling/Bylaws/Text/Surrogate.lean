/-!
# Surrogates

The codes from D800 to DFFF are halves of a pair and name no characters, but the escapes of a data
file can spell one by itself. Such a half is kept in a text as a stand-in: the private character
that lies 100000 beyond it. Where a text is shown or written, `code` gives the half back. The 2048
private characters that stand in are never taken for themselves, so nothing said here holds of a
text of theirs.
-/

namespace Bylaws.Text

/-- Whether a code is half of a pair. -/
def isSurrogate (n : Nat) : Bool := 0xD800 ≤ n && n < 0xE000

/-- How far a stand-in lies beyond its half. -/
def standInOffset : Nat := 0x100000

/-- The character that a code spells. -/
def ofCode (n : Nat) : Char := Char.ofNat (if isSurrogate n then n + standInOffset else n)

/-- Whether a character stands for half of a pair. -/
def isStandIn (c : Char) : Bool :=
  standInOffset ≤ c.toNat && isSurrogate (c.toNat - standInOffset)

/-- The code that a character stands for. -/
def code (c : Char) : Nat := if isStandIn c then c.toNat - standInOffset else c.toNat

theorem toNat_ofNat_of_lt {n : Nat} (h : n < 0xD800 ∨ 0xDFFF < n ∧ n < 0x110000) :
    (Char.ofNat n).toNat = n := by
  have hv : n.isValidChar := h
  rw [Char.ofNat, dif_pos hv]
  rfl

/-- A half that is spelled is given back. -/
theorem code_ofCode {n : Nat} (h : isSurrogate n) : code (ofCode n) = n := by
  have hn : 0xD800 ≤ n ∧ n < 0xE000 := by simpa [isSurrogate] using h
  have hc : (ofCode n).toNat = n + standInOffset := by
    simp only [ofCode, h, if_true]
    exact toNat_ofNat_of_lt (by simp only [standInOffset]; omega)
  have hs : isStandIn (ofCode n) := by
    simp only [isStandIn, hc, Nat.add_sub_cancel, h, Bool.and_true, decide_eq_true_eq]
    omega
  simp [code, hs, hc]

end Bylaws.Text
