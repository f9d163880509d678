import LogicTree.Proofs.Toml.Numbers
import LogicTree.Proofs.Toml.Strings

/-! # Documents of settings, line by line

A document that is written is a sequence of lines: headers, values of keys, and empty lines. Every
line is read as the change of the table that it stands for, and reading goes on with the next one.
-/

namespace LogicTree.Toml

/-! ## What is not passed over -/

theorem ne_of_test {α : Type} {test : α → Bool} {a b : α} (inside : test a = true)
    (outside : test b = false) : a ≠ b := by
  rintro rfl
  rw [inside] at outside
  cases outside

section kept

variable {c : Char} {rest : List Char}

theorem dropBlanks_of_ne (blank : c ≠ ' ') (tab : c ≠ '\t') : dropBlanks (c :: rest) = c :: rest := by
  rw [dropBlanks]
  · intro others same
    exact blank (List.cons.inj same).1
  · intro others same
    exact tab (List.cons.inj same).1

theorem dropLines_of_not_mem (kept : c ∉ [' ', '\t', '\n', '\r', '#']) :
    dropLines false (c :: rest) = some (c :: rest) := by
  simp only [List.mem_cons, List.not_mem_nil, or_false, not_or] at kept
  obtain ⟨blank, tab, feed, back, comment⟩ := kept
  rw [dropLines]
  · simp [blank, tab, comment]
  · exact feed
  · rintro others rfl
    exact absurd rfl back

end kept

/-! ## Keys -/

/-- A key that stands for itself without quotes. -/
structure IsBare (key : String) : Prop where
  chars : ∀ c ∈ key.toList, isKeyChar c = true
  nonempty : key.toList ≠ []

section keys

variable {name : String} {c : Char} {rest : List Char}

theorem IsBare.cons (bare : IsBare name) :
    ∃ c others, name.toList = c :: others ∧ isKeyChar c = true := by
  cases chars : name.toList with
  | nil => exact absurd chars bare.nonempty
  | cons c others => exact ⟨c, others, rfl, bare.chars c (by simp [chars])⟩

theorem keyPart_append (bare : IsBare name) (outside : isKeyChar c = false) :
    keyPart (name.toList ++ c :: rest) = some (name.toList, c :: rest) := by
  have word : (name.toList ++ c :: rest).takeWhile isKeyChar = name.toList := by
    rw [List.takeWhile_append_of_pos bare.chars, List.takeWhile_cons_of_neg (by simp [outside]),
      List.append_nil]
  have left : (name.toList ++ c :: rest).dropWhile isKeyChar = c :: rest := by
    rw [List.dropWhile_append_of_pos bare.chars, List.dropWhile_cons_of_neg (by simp [outside])]
  obtain ⟨first, others, chars, inside⟩ := bare.cons
  unfold keyPart
  split
  next quoted =>
    rw [chars] at quoted
    exact absurd (List.cons.inj quoted).1 (ne_of_test inside rfl)
  next quoted =>
    rw [chars] at quoted
    exact absurd (List.cons.inj quoted).1 (ne_of_test inside rfl)
  · simp only [word, left]
    rw [if_neg (by simp [chars])]

theorem key_append (bare : IsBare name) (outside : isKeyChar c = false) {d : Char}
    {others : List Char} (behind : dropBlanks (c :: rest) = d :: others) (point : d ≠ '.') :
    key (name.toList ++ c :: rest) = some ([name], d :: others) := by
  have start : dropBlanks (name.toList ++ c :: rest) = name.toList ++ c :: rest := by
    obtain ⟨first, more, chars, inside⟩ := bare.cons
    rw [chars]
    exact dropBlanks_of_ne (ne_of_test inside rfl) (ne_of_test inside rfl)
  rw [key, depthLimit, keyParts, start, keyPart_append bare outside]
  simp only [Option.bind_eq_bind, Option.bind_some, behind, String.ofList_toList]
  split
  next joined => exact absurd (List.cons.inj joined).1 point
  · rfl

end keys

/-! ## Values -/

/-- Characters are read as a value up to the end of their line. -/
structure Spells (written : List Char) (item : Value) : Prop where
  read : ∀ fuel rest, value (fuel + 1) 0 (written ++ '\n' :: rest) = some (item, '\n' :: rest)
  start : ∃ c others, written = c :: others ∧ c ≠ ' ' ∧ c ≠ '\t'

theorem spells_scalar {word : List Char} {item : Value} (chars : ∀ c ∈ word, isScalarChar c = true)
    (nonempty : word ≠ []) (read : scalar? word = some item) : Spells word item := by
  cases word with
  | nil => exact absurd rfl nonempty
  | cons c others =>
      have inside := chars c List.mem_cons_self
      constructor
      case start => exact ⟨c, others, rfl, ne_of_test inside rfl, ne_of_test inside rfl⟩
      case read =>
        intro fuel rest
        have cut := cutScalar_append chars rest
        rw [List.cons_append] at cut ⊢
        rw [value, cut]
        · simp [read]
        all_goals
          intro more same
          exact absurd (List.cons.inj same).1 (ne_of_test inside rfl)

theorem spells_text (text : String) : Spells (writeText text.toList) (.text text) := by
  have opening : ∃ quote others, writeText text.toList = quote :: others ∧
      (quote = '\x22' ∨ quote = '\x27') := by
    unfold writeText
    cases TextForm.ofChars text.toList with
    | basic | multilineBasic => exact ⟨_, _, rfl, .inl rfl⟩
    | literal | multilineLiteral => exact ⟨_, _, rfl, .inr rfl⟩
  obtain ⟨quote, others, chars, sort⟩ := opening
  constructor
  case start =>
    obtain rfl | rfl := sort
    · exact ⟨_, others, chars, by decide, by decide⟩
    · exact ⟨_, others, chars, by decide, by decide⟩
  case read =>
    intro fuel rest
    have read := quotedText_writeText text.toList rest
    rw [chars, List.cons_append] at read ⊢
    obtain rfl | rfl := sort
    · simp only [value, read, Option.map_some, String.ofList_toList]
    · simp only [value, read, Option.map_some, String.ofList_toList]

theorem spells_integer {n : Nat} (fits : n < 9223372036854775808) :
    Spells (Nat.toDigits 10 n) (.integer n) :=
  spells_scalar (isScalarChar_of_mem_signed false (isUnsigned_toDigits n))
    Nat.toDigits_ne_nil (scalar?_toDigits fits)

theorem spells_real (number : Float) :
    Spells (NumberLayout.settings.chars number) (.real (readBack number)) := by
  refine spells_scalar (isScalarChar_of_mem_settings number) ?_ (scalar?_settings number)
  intro empty
  have read := scalar?_settings number
  rw [empty] at read
  cases read

/-! ## Lines -/

/-- A line of a document, with the value that it gives to a key if it does. -/
inductive Line where
  | blank
  | header (key : String)
  | entry (key : String) (written : List Char) (item : Value)

namespace Line

/-- The characters of a line. -/
def chars : Line → List Char
  | .blank => ['\n']
  | .header key => Toml.header key
  | .entry key written _ => Toml.line key written

/-- A line that is read as what it stands for. -/
def IsSound : Line → Prop
  | .blank => True
  | .header key => IsBare key
  | .entry key written item => IsBare key ∧ Spells written item

/-- The entries of a document after its next lines, of which the latest header opened the table of
    a path. -/
def build : List String → Entries → List Line → Option Entries
  | _, root, [] => some root
  | path, root, .blank :: lines => build path root lines
  | _, root, .header key :: lines => do build [key] (← root.openTable [key]) lines
  | path, root, .entry key _ item :: lines => do build path (← root.assignIn path [key] item) lines

variable {fuel : Nat} {path : List String} {root : Entries} {rest : List Char}

theorem statements_nil : statements (fuel + 1) path root [] = some root := rfl

theorem statements_blank :
    statements (fuel + 1) path root ('\n' :: rest) = statements (fuel + 1) path root rest := rfl

theorem statements_header {name : String} (bare : IsBare name) :
    statements (fuel + 1) path root (Toml.header name ++ rest) =
      (root.openTable [name]).bind fun root => statements fuel [name] root rest := by
  have found : key (name.toList ++ ']' :: '\n' :: rest) = some ([name], ']' :: '\n' :: rest) :=
    key_append bare rfl rfl (by decide)
  have chars : Toml.header name ++ rest = '[' :: (name.toList ++ ']' :: '\n' :: rest) := by
    simp [Toml.header]
  obtain ⟨first, others, letters, inside⟩ := bare.cons
  have single : first ≠ '[' := ne_of_test inside rfl
  rw [chars, statements, dropLines_of_not_mem (by decide), letters]
  rw [letters] at found
  simp only [Option.bind_eq_bind, Option.bind_some, List.cons_append] at found ⊢
  split
  next empty => cases empty
  next double => exact absurd (List.cons.inj (List.cons.inj double).2).1 single
  next same =>
    cases same
    rw [found]
    rfl
  next other => exact absurd rfl (other _)

theorem statements_entry {name : String} {written : List Char} {item : Value} (bare : IsBare name)
    (spells : Spells written item) :
    statements (fuel + 2) path root (Toml.line name written ++ rest) =
      (root.assignIn path [name] item).bind fun root => statements (fuel + 1) path root rest := by
  have found : key (name.toList ++ ' ' :: '=' :: ' ' :: (written ++ '\n' :: rest)) =
      some ([name], '=' :: ' ' :: (written ++ '\n' :: rest)) :=
    key_append bare rfl rfl (by decide)
  have chars : Toml.line name written ++ rest =
      name.toList ++ ' ' :: '=' :: ' ' :: (written ++ '\n' :: rest) := by
    simp [Toml.line]
  obtain ⟨first, others, letters, inside⟩ := bare.cons
  have start : dropBlanks (' ' :: (written ++ '\n' :: rest)) = written ++ '\n' :: rest := by
    obtain ⟨c, more, rfl, blank, tab⟩ := spells.start
    exact dropBlanks_of_ne blank tab
  have kept : first ∉ [' ', '\t', '\n', '\r', '#'] := by
    intro member
    simp only [List.mem_cons, List.not_mem_nil, or_false] at member
    obtain rfl | rfl | rfl | rfl | rfl := member <;> cases inside
  rw [chars, statements, letters, List.cons_append, dropLines_of_not_mem kept]
  rw [letters, List.cons_append] at found
  simp only [Option.bind_eq_bind, Option.bind_some] at found ⊢
  split
  next empty => cases empty
  next double => exact absurd (List.cons.inj double).1 (ne_of_test inside rfl)
  next single => exact absurd (List.cons.inj single).1 (ne_of_test inside rfl)
  · rw [found]
    simp only [Option.bind_some, start, spells.read]
    rfl

theorem statements_lines {lines : List Line} (sound : ∀ line ∈ lines, line.IsSound)
    (enough : lines.length < fuel) :
    statements fuel path root (lines.flatMap chars) = build path root lines := by
  induction lines generalizing fuel path root with
  | nil =>
      obtain ⟨fuel, rfl⟩ := Nat.exists_eq_add_one_of_ne_zero (Nat.ne_of_gt enough)
      exact statements_nil
  | cons line lines ih =>
      obtain ⟨first, others⟩ := List.forall_mem_cons.1 sound
      rw [List.length_cons] at enough
      obtain ⟨fuel, rfl⟩ : ∃ more, fuel = more + 2 := ⟨fuel - 2, by omega⟩
      rw [List.flatMap_cons]
      cases line with
      | blank => exact statements_blank.trans (ih others (by omega))
      | header key =>
          rw [chars, statements_header first, build]
          congr 1
          funext root
          exact ih others (by omega)
      | entry key written item =>
          rw [chars, statements_entry first.1 first.2, build]
          congr 1
          funext root
          exact ih others (by omega)

theorem length_le_length_chars (lines : List Line) :
    lines.length ≤ (lines.flatMap chars).length := by
  induction lines with
  | nil => exact Nat.le_refl 0
  | cons line lines ih =>
      have some : 0 < line.chars.length := by
        cases line <;> simp [chars, Toml.header, Toml.line]
      rw [List.flatMap_cons, List.length_append, List.length_cons]
      omega

theorem head_chars {lines : List Line} (sound : ∀ line ∈ lines, line.IsSound) :
    (lines.flatMap chars).head? ≠ some '\uFEFF' := by
  cases lines with
  | nil => exact nofun
  | cons line lines =>
      have first := sound line List.mem_cons_self
      cases line with
      | blank => exact nofun
      | header key => exact nofun
      | entry key written item =>
          obtain ⟨c, others, letters, inside⟩ := first.1.cons
          have mark : c ≠ '\uFEFF' := ne_of_test inside rfl
          simpa [chars, Toml.line, letters] using mark

theorem read?_lines {lines : List Line} (sound : ∀ line ∈ lines, line.IsSound) :
    read? (String.ofList (lines.flatMap chars)) = (build [] [] lines).map finishEntries := by
  have mark := head_chars sound
  have enough := length_le_length_chars lines
  rw [read?, String.toList_ofList]
  split
  next marked =>
    rw [marked] at mark
    exact absurd rfl mark
  · rw [statements_lines sound (by omega)]

end Line

end LogicTree.Toml
