/-
  Jrpxy.HttpMessage.FieldList

  Field values that are comma-separated lists.
-/
import Jrpxy.HttpMessage.Header
import Jrpxy.Lib.SepList

namespace Jrpxy.HttpMessage

open Ascii Util SepList

/-- The elements of a comma-separated list, empty ones included. -/
def listElements (value : Bytes) : List Bytes := elements 44 isOws value

/-- The elements that are not empty; a recipient ignores the others. -/
def nonEmptyElements (value : Bytes) : List Bytes := (listElements value).filter fun e => !e.isEmpty

theorem isOws_of_isValidTchar {b : UInt8} (h : isValidTchar b = true) : isOws b = false := by
  have hne := ne_of_isValidTchar h
  simp [isOws, hne]

/-- A token is neither trimmed nor cut. -/
theorem listElements_token {tok ws : Bytes} (htok : ∀ b ∈ tok, isValidTchar b = true)
    (hws : ∀ b ∈ ws, isOws b = true) : 44 ∉ tok ++ ws ∧ trim isOws (tok ++ ws) = tok := by
  refine ⟨?_, ?_⟩
  · rw [List.mem_append]
    rintro (hmem | hmem)
    · exact absurd (htok 44 hmem) (by decide)
    · exact absurd (hws 44 hmem) (by decide)
  · rw [trim_append_right hws, trim_of_none fun b hb => isOws_of_isValidTchar (htok b hb)]

/-- Up to a byte that is no comma everything belongs to the first element. -/
theorem listElements_first {u : Bytes} {c : UInt8} (hu : 44 ∉ u) (hc : c ≠ 44) (y : Bytes) :
    ∃ mid es, listElements (u ++ c :: y) = trim isOws (u ++ c :: mid) :: es := by
  have hmem : ∀ mid : Bytes, 44 ∉ mid → 44 ∉ u ++ c :: mid := by
    intro mid hmid
    rw [List.mem_append, List.mem_cons]
    rintro (h | h | h)
    · exact hu h
    · exact hc h.symm
    · exact hmid h
  by_cases hy : 44 ∈ y
  · obtain ⟨mid, z, rfl, hmid⟩ := List.eq_append_cons_of_mem hy
    refine ⟨mid, listElements z, ?_⟩
    rw [← List.cons_append, ← List.append_assoc]
    exact elements_append_sep (hmem mid hmid) z
  · exact ⟨y, [], elements_of_not_mem (hmem y hy)⟩

end Jrpxy.HttpMessage
