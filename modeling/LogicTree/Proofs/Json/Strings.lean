import Mathlib.Tactic.IntervalCases
import LogicTree.Json.Printer
import LogicTree.Json.Token

/-! # Strings in documents

A string is written byte by byte, some bytes as escapes. Every escape is scanned as the
byte that it stands for, so the bytes of the string come back, and they are valid UTF-8.
-/

namespace LogicTree

theorem Bytes.toString?_ofString (s : String) : toString? (ofString s) = some s := by
  have hbytes : (⟨(ofString s).toArray⟩ : ByteArray) = s.toByteArray := by
    simp [ofString]
  rw [toString?, hbytes]
  exact dif_pos s.isValidUTF8

namespace Json

variable {tokens : List Token}

theorem foldl_step_escapeByte (byte : UInt8) (read : Bytes) :
    (escapeByte byte).foldl Lexer.step ⟨tokens, .string { bytes := read }⟩ =
      ⟨tokens, .string { bytes := byte :: read }⟩ := by
  by_cases hquote : byte = 0x22 ∨ byte = 0x5c
  · rcases hquote with rfl | rfl <;> rfl
  · obtain ⟨hquotation, hbackslash⟩ := not_or.1 hquote
    by_cases hplain : 0x20 ≤ byte
    · have hlow : ¬ byte < 0x20 := UInt8.not_lt.2 hplain
      have hkept : escapeByte byte = [byte] := by
        unfold escapeByte
        rw [if_neg hquote, if_pos hplain]
      rw [hkept]
      simp [Lexer.step, StringScan.step, StringScan.forgetLead, hquotation, hbackslash, hlow]
    · have hrange : byte.toNat < 32 := UInt8.lt_iff_toNat_lt.1 (UInt8.not_le.1 hplain)
      obtain ⟨n, hn, rfl⟩ : ∃ n, n < 32 ∧ byte = UInt8.ofNat n :=
        ⟨byte.toNat, hrange, UInt8.ofNat_toNat.symm⟩
      interval_cases n <;> rfl

theorem foldl_step_escapes (bytes read : Bytes) :
    (bytes.flatMap escapeByte).foldl Lexer.step ⟨tokens, .string { bytes := read }⟩ =
      ⟨tokens, .string { bytes := bytes.reverse ++ read }⟩ := by
  induction bytes generalizing read with
  | nil => rfl
  | cons byte bytes ih =>
      rw [List.flatMap_cons, List.foldl_append, foldl_step_escapeByte, ih]
      simp

theorem scan_printString (s : String) (tokens : List Token) :
    (printString s).foldl Lexer.step ⟨tokens, .between⟩ =
      ⟨.string (some s) :: tokens, .between⟩ := by
  have hopen : Lexer.step ⟨tokens, .between⟩ 0x22 = ⟨tokens, .string {}⟩ := rfl
  have hclose : Lexer.step ⟨tokens, .string { bytes := (Bytes.ofString s).reverse ++ [] }⟩ 0x22 =
      ⟨.string (Bytes.toString? (Bytes.ofString s)) :: tokens, .between⟩ := by
    simp [Lexer.step, StringScan.step, StringScan.forgetLead]
  rw [printString, List.foldl_cons, hopen, List.foldl_append, foldl_step_escapes, List.foldl_cons,
    hclose, Bytes.toString?_ofString]
  rfl

end Json

end LogicTree
