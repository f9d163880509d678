import LogicTree.Json.Node
import LogicTree.Proofs.Json.Grammar

/-! # Well-formed documents

The markup of a value says how each of its numbers and strings is spelled and in which order its
members stand. Any text of its marks, with blanks between them, is cut into their tokens, and the
tokens are put together to the node of the markup, with nothing after it.
-/

namespace LogicTree.Json

/-! ## Markup -/

/-- A token with the bytes that spell it. -/
structure Mark where
  text : Bytes
  token : Token

namespace Mark

def openArray : Mark := ⟨[0x5b], .openArray⟩
def closeArray : Mark := ⟨[0x5d], .closeArray⟩
def openObject : Mark := ⟨[0x7b], .openObject⟩
def closeObject : Mark := ⟨[0x7d], .closeObject⟩
def comma : Mark := ⟨[0x2c], .comma⟩
def colon : Mark := ⟨[0x3a], .colon⟩

end Mark

/-- The mark of a string. -/
def StringText.mark (text : StringText) : Mark := ⟨text.bytes, .string text.text?⟩

/-- A value as it may be spelled in a document. -/
inductive Markup where
  | null
  | bool (value : Bool)
  | number (text : NumberText)
  | string (text : StringText)
  | array (items : List Markup)
  | object (members : List (StringText × Markup))

namespace Markup

mutual

/-- The marks of a value. -/
def marks : Markup → List Mark
  | .null => [⟨[0x6e, 0x75, 0x6c, 0x6c], .null⟩]
  | .bool true => [⟨[0x74, 0x72, 0x75, 0x65], .bool true⟩]
  | .bool false => [⟨[0x66, 0x61, 0x6c, 0x73, 0x65], .bool false⟩]
  | .number text => [⟨text.bytes, .number text.value?⟩]
  | .string text => [text.mark]
  | .array [] => [.openArray, .closeArray]
  | .array (item :: items) => .openArray :: (marks item ++ (itemMarks items ++ [.closeArray]))
  | .object [] => [.openObject, .closeObject]
  | .object ((key, value) :: members) =>
      .openObject :: key.mark :: .colon :: (marks value ++ (memberMarks members ++ [.closeObject]))

/-- The marks of items after the first. -/
def itemMarks : List Markup → List Mark
  | [] => []
  | item :: items => .comma :: (marks item ++ itemMarks items)

/-- The marks of members after the first. -/
def memberMarks : List (StringText × Markup) → List Mark
  | [] => []
  | (key, value) :: members =>
      .comma :: key.mark :: .colon :: (marks value ++ memberMarks members)

end

mutual

/-- The node that a value is read as. -/
def node : Markup → Node
  | .null => .null
  | .bool value => .bool value
  | .number text => .number text.value?
  | .string text => .string text.text?
  | .array items => .array (itemNodes items) none
  | .object members => .object (memberNodes members) none

def itemNodes : List Markup → List Node
  | [] => []
  | item :: items => node item :: itemNodes items

def memberNodes : List (StringText × Markup) → List (Option String × Node)
  | [] => []
  | (key, value) :: members => (key.text?, node value) :: memberNodes members

end

theorem itemNodes_eq_map (items : List Markup) : itemNodes items = items.map node := by
  induction items with
  | nil => rfl
  | cons item items ih => rw [itemNodes, ih, List.map_cons]

theorem memberNodes_eq_map (members : List (StringText × Markup)) :
    memberNodes members = members.map fun member => (member.1.text?, member.2.node) := by
  induction members with
  | nil => rfl
  | cons member members ih => rw [memberNodes, ih, List.map_cons]

theorem gap?_node (markup : Markup) : markup.node.gap? = none := by
  cases markup <;> rfl

end Markup

/-! ## Texts -/

/-- The bytes that may stand between tokens. -/
def blanks : Bytes := [0x20, 0x09, 0x0a, 0x0d]

/-- A text that consists of marks, with blanks before, between and behind them. -/
inductive Spaced : List Mark → Bytes → Prop where
  | nil {space : Bytes} (isBlank : ∀ byte ∈ space, byte ∈ blanks) : Spaced [] space
  | cons {space rest : Bytes} {marks : List Mark} (isBlank : ∀ byte ∈ space, byte ∈ blanks)
      (mark : Mark) (h : Spaced marks rest) : Spaced (mark :: marks) (space ++ (mark.text ++ rest))

namespace Spaced

variable {marks others : List Mark} {text rest space : Bytes}

theorem mark (mark : Mark) (h : Spaced marks rest) :
    Spaced (mark :: marks) (mark.text ++ rest) :=
  @cons [] rest marks nofun mark h

theorem flatMap (marks : List Mark) : Spaced marks (marks.flatMap Mark.text) := by
  induction marks with
  | nil => exact .nil nofun
  | cons first marks ih => exact .mark first ih

theorem space_append (isBlank : ∀ byte ∈ space, byte ∈ blanks) (h : Spaced marks text) :
    Spaced marks (space ++ text) := by
  cases h with
  | nil others =>
      apply nil
      grind
  | cons others mark h =>
      rw [← List.append_assoc]
      refine cons ?_ mark h
      grind

theorem append (h : Spaced marks text) (hrest : Spaced others rest) :
    Spaced (marks ++ others) (text ++ rest) := by
  induction h with
  | nil isBlank => exact hrest.space_append isBlank
  | cons isBlank mark h ih =>
      rw [List.append_assoc, List.append_assoc]
      exact cons isBlank mark ih

theorem split (h : Spaced (marks ++ others) text) :
    ∃ first second, text = first ++ second ∧ Spaced marks first ∧ Spaced others second := by
  induction marks generalizing text with
  | nil => exact ⟨[], text, rfl, .nil nofun, h⟩
  | cons mark marks ih =>
      cases h with
      | cons isBlank mark h =>
          rename_i space rest
          obtain ⟨first, second, rfl, hfirst, hsecond⟩ := ih h
          refine ⟨space ++ (mark.text ++ first), second, ?_, cons isBlank mark hfirst, hsecond⟩
          simp only [List.append_assoc]

end Spaced

/-! ## Cutting a text into tokens -/

namespace Lexer

/-- The machine has read some tokens, the latest first, and is in none. -/
def IsBetween (lexer : Lexer) (tokens : List Token) : Prop :=
  lexer = ⟨tokens, .between⟩

/-- The machine has read some tokens, the latest first. The last of them may be a number
    whose end it has not seen. -/
inductive HasRead : Lexer → List Token → Prop where
  | between (tokens : List Token) : HasRead ⟨tokens, .between⟩ tokens
  | number (tokens : List Token) {scan : NumberScan} (complete : scan.isComplete = true) :
      HasRead ⟨tokens, .number scan⟩ (.number scan.value? :: tokens)

/-- The bytes that end a number. -/
def enders : Bytes := blanks ++ [0x2c, 0x5d, 0x7d]

variable {lexer : Lexer} {tokens : List Token}

theorem HasRead.step_eq_start (h : lexer.HasRead tokens) {byte : UInt8} (hends : byte ∈ enders) :
    lexer.step byte = start tokens byte := by
  cases h with
  | between => rfl
  | number tokens complete =>
      rename_i scan
      have hnext : scan.next? byte = none ∧ scan.isSpoiltBy byte = false := by
        cases hphase : scan.phase with
        | sign | point | mark | markSign => simp [NumberScan.isComplete, hphase] at complete
        | zero | whole | fraction | exponent =>
            simp only [enders, blanks, List.cons_append, List.nil_append, List.mem_cons,
              List.not_mem_nil, or_false] at hends
            rcases hends with rfl | rfl | rfl | rfl | rfl | rfl | rfl <;>
              simp [NumberScan.next?, NumberScan.isSpoiltBy, NumberScan.isComplete, hphase, isDigit]
      rw [Lexer.step]
      simp only [hnext, Bool.false_eq_true, ↓reduceIte]

theorem start_blank {byte : UInt8} (h : byte ∈ blanks) (tokens : List Token) :
    start tokens byte = ⟨tokens, .between⟩ := by
  simp only [blanks, List.mem_cons, List.not_mem_nil, or_false] at h
  rcases h with rfl | rfl | rfl | rfl <;> rfl

theorem foldl_step_blanks {space : Bytes} (isBlank : ∀ byte ∈ space, byte ∈ blanks)
    (tokens : List Token) : space.foldl step ⟨tokens, .between⟩ = ⟨tokens, .between⟩ := by
  induction space with
  | nil => rfl
  | cons byte space ih =>
      obtain ⟨hbyte, hspace⟩ := List.forall_mem_cons.1 isBlank
      rw [List.foldl_cons, step, start_blank hbyte]
      exact ih hspace

theorem HasRead.blanks (h : lexer.HasRead tokens) {space : Bytes}
    (isBlank : ∀ byte ∈ space, byte ∈ blanks) : (space.foldl step lexer).HasRead tokens := by
  cases space with
  | nil => exact h
  | cons byte space =>
      obtain ⟨hbyte, hspace⟩ := List.forall_mem_cons.1 isBlank
      rw [List.foldl_cons, h.step_eq_start (List.mem_append_left _ hbyte), start_blank hbyte,
        foldl_step_blanks hspace]
      exact .between tokens

theorem HasRead.finish (h : lexer.HasRead tokens) : lexer.finish .truncated = tokens.reverse := by
  cases h with
  | between => rfl
  | number tokens complete => simp [Lexer.finish, NumberScan.lastToken, complete]

/-- From a machine in a given state, any text of some marks is cut into their tokens. -/
def Reads (start : Lexer → List Token → Prop) (marks : List Mark) : Prop :=
  ∀ text, Spaced marks text → ∀ lexer tokens, start lexer tokens →
    (text.foldl step lexer).HasRead ((marks.map Mark.token).reverse ++ tokens)

namespace Reads

variable {start : Lexer → List Token → Prop} {marks others : List Mark} {mark : Mark}

theorem append (h : Reads start marks) (hothers : Reads HasRead others) :
    Reads start (marks ++ others) := by
  intro text spaced lexer tokens hlexer
  obtain ⟨first, second, rfl, hfirst, hsecond⟩ := spaced.split
  have hread := hothers second hsecond _ _ (h first hfirst lexer tokens hlexer)
  rw [List.foldl_append, List.map_append, List.reverse_append, List.append_assoc]
  exact hread

theorem nil : Reads HasRead [] := by
  intro text spaced lexer tokens hlexer
  cases spaced with
  | nil isBlank => exact hlexer.blanks isBlank

theorem isBetween (h : Reads HasRead marks) : Reads IsBetween marks := by
  intro text spaced lexer tokens hlexer
  cases hlexer
  exact h text spaced _ tokens (.between tokens)

/-- A mark that is read whole, and marks behind it. -/
theorem cons (hmark : ∀ tokens, mark.text.foldl step ⟨tokens, .between⟩ =
      ⟨mark.token :: tokens, .between⟩) (h : Reads IsBetween marks) :
    Reads IsBetween (mark :: marks) := by
  intro text spaced lexer tokens hlexer
  cases hlexer
  cases spaced with
  | cons isBlank mark spaced =>
      have hread := h _ spaced _ (mark.token :: tokens) rfl
      rw [List.foldl_append, List.foldl_append, foldl_step_blanks isBlank, hmark, List.map_cons,
        List.reverse_cons, List.append_assoc]
      exact hread

/-- The last mark may be a number. -/
theorem last (hmark : ∀ tokens, (mark.text.foldl step ⟨tokens, .between⟩).HasRead
      (mark.token :: tokens)) : Reads IsBetween [mark] := by
  intro text spaced lexer tokens hlexer
  cases hlexer
  cases spaced with
  | cons isBlank mark spaced =>
      rw [List.foldl_append, List.foldl_append, foldl_step_blanks isBlank]
      exact nil _ spaced _ _ (hmark tokens)

theorem ender {byte : UInt8} {token : Token} (hends : byte ∈ enders)
    (hstart : ∀ tokens, Lexer.start tokens byte = ⟨token :: tokens, .between⟩)
    (h : Reads IsBetween marks) : Reads HasRead (⟨[byte], token⟩ :: marks) := by
  intro text spaced lexer tokens hlexer
  cases spaced with
  | cons isBlank mark spaced =>
      have hread := h _ spaced _ (token :: tokens) rfl
      rw [List.foldl_append, List.foldl_append, List.foldl_cons, List.foldl_nil,
        (hlexer.blanks isBlank).step_eq_start hends, hstart, List.map_cons, List.reverse_cons,
        List.append_assoc]
      exact hread

theorem comma (h : Reads IsBetween marks) : Reads HasRead (.comma :: marks) := by
  refine ender ?_ (fun _ => rfl) h
  decide

theorem closeArray : Reads HasRead [.closeArray] := by
  refine ender ?_ (fun _ => rfl) nil.isBetween
  decide

theorem closeObject : Reads HasRead [.closeObject] := by
  refine ender ?_ (fun _ => rfl) nil.isBetween
  decide

theorem key (text : StringText) (h : Reads IsBetween marks) :
    Reads IsBetween (text.mark :: .colon :: marks) :=
  cons text.scan_bytes (cons (fun _ => rfl) h)

theorem number (text : NumberText) : Reads IsBetween [⟨text.bytes, .number text.value?⟩] := by
  apply last
  intro tokens
  obtain ⟨scan, hscan, complete, hvalue⟩ := text.scan_bytes tokens
  rw [hscan, ← hvalue]
  exact .number tokens complete

end Reads

end Lexer

open Lexer in
mutual

/-- The text of a value is cut into its tokens. -/
theorem Markup.reads_marks (markup : Markup) : Reads IsBetween markup.marks := by
  cases markup with
  | null => exact .cons (fun _ => rfl) Reads.nil.isBetween
  | bool value => cases value <;> exact .cons (fun _ => rfl) Reads.nil.isBetween
  | number text => exact .number text
  | string text => exact .cons text.scan_bytes Reads.nil.isBetween
  | array items =>
      cases items with
      | nil => exact .cons (fun _ => rfl) Reads.closeArray.isBetween
      | cons item items =>
          apply Reads.cons (fun _ => rfl)
          exact (reads_marks item).append ((reads_itemMarks items).append .closeArray)
  | object members =>
      cases members with
      | nil => exact .cons (fun _ => rfl) Reads.closeObject.isBetween
      | cons member members =>
          obtain ⟨key, value⟩ := member
          apply Reads.cons (fun _ => rfl)
          apply Reads.key key
          exact (reads_marks value).append ((reads_memberMarks members).append .closeObject)
termination_by sizeOf markup

theorem Markup.reads_itemMarks (items : List Markup) : Reads HasRead (itemMarks items) := by
  cases items with
  | nil => exact .nil
  | cons item items => exact .comma ((reads_marks item).append (reads_itemMarks items))
termination_by sizeOf items

theorem Markup.reads_memberMarks (members : List (StringText × Markup)) :
    Reads HasRead (memberMarks members) := by
  cases members with
  | nil => exact .nil
  | cons member members =>
      obtain ⟨key, value⟩ := member
      exact .comma (.key key ((reads_marks value).append (reads_memberMarks members)))
termination_by sizeOf members

end

theorem tokens_spaced {markup : Markup} {text : Bytes} (h : Spaced markup.marks text) :
    tokens text .truncated = markup.marks.map Mark.token := by
  have hread := (markup.reads_marks text h _ [] rfl).finish
  rw [List.append_nil, List.reverse_reverse] at hread
  exact hread

/-! ## Putting tokens together -/

namespace Cursor

/-- Takes in the token of a mark. -/
def take (cursor : Cursor) (mark : Mark) : Cursor := cursor.step mark.token

/-- A first item starts as any value does, since no value starts with a closing bracket. -/
theorem foldl_take_firstItem (markup : Markup) (rest : List Mark) (frames : List Frame) :
    (markup.marks ++ rest).foldl take (.firstItem frames) =
      (markup.marks ++ rest).foldl take (.wantValue (.array [] :: frames)) := by
  cases markup with
  | null | number | string => rfl
  | bool value => cases value <;> rfl
  | array items => cases items <;> rfl
  | object members => cases members <;> rfl

end Cursor

open Cursor in
mutual

theorem Markup.foldl_take_marks (markup : Markup) (frames : List Frame) :
    markup.marks.foldl take (.wantValue frames) = complete markup.node frames := by
  cases markup with
  | null | number | string => rfl
  | bool value => cases value <;> rfl
  | array items =>
      cases items with
      | nil => rfl
      | cons item items =>
          have hopen : take (.wantValue frames) .openArray = .firstItem frames := rfl
          have hitems := foldl_take_itemMarks items [item.node] frames
          rw [marks, List.foldl_cons, hopen, foldl_take_firstItem, List.foldl_append,
            foldl_take_marks item, List.foldl_append, complete, hitems]
          simp only [List.foldl_cons, List.foldl_nil, take, Mark.closeArray, step,
            List.reverse_append, List.reverse_reverse, List.reverse_singleton,
            List.singleton_append, node, itemNodes]
  | object members =>
      cases members with
      | nil => rfl
      | cons member members =>
          obtain ⟨key, value⟩ := member
          have hmembers := foldl_take_memberMarks members [(key.text?, value.node)] frames
          rw [marks]
          change (value.marks ++ (memberMarks members ++ [Mark.closeObject])).foldl take
            (.wantValue (.object [] key.text? :: frames)) = _
          rw [List.foldl_append, foldl_take_marks value, List.foldl_append, complete, hmembers]
          simp only [List.foldl_cons, List.foldl_nil, take, Mark.closeObject, step,
            List.reverse_append, List.reverse_reverse, List.reverse_singleton,
            List.singleton_append, node, memberNodes]
termination_by sizeOf markup

theorem Markup.foldl_take_itemMarks (items : List Markup) (read : List Node)
    (frames : List Frame) :
    (itemMarks items).foldl take (.nextItem read frames) =
      .nextItem ((itemNodes items).reverse ++ read) frames := by
  cases items with
  | nil => rfl
  | cons item items =>
      have hcomma : take (.nextItem read frames) .comma = .wantValue (.array read :: frames) := rfl
      rw [itemMarks, List.foldl_cons, hcomma, List.foldl_append, foldl_take_marks item, complete,
        foldl_take_itemMarks items]
      simp only [itemNodes, List.reverse_cons, List.append_assoc, List.singleton_append]
termination_by sizeOf items

theorem Markup.foldl_take_memberMarks (members : List (StringText × Markup))
    (read : List (Option String × Node)) (frames : List Frame) :
    (memberMarks members).foldl take (.nextKey read frames) =
      .nextKey ((memberNodes members).reverse ++ read) frames := by
  cases members with
  | nil => rfl
  | cons member members =>
      obtain ⟨key, value⟩ := member
      rw [memberMarks]
      change (value.marks ++ memberMarks members).foldl take
        (.wantValue (.object read key.text? :: frames)) = _
      rw [List.foldl_append, foldl_take_marks value, complete, foldl_take_memberMarks members]
      simp only [memberNodes, List.reverse_cons, List.append_assoc, List.singleton_append]
termination_by sizeOf members

end

/-- Every text of a value is read as its node. -/
theorem read_spaced {markup : Markup} {text : Bytes} (h : Spaced markup.marks text) :
    Document.read text .truncated = ⟨markup.node, none⟩ := by
  have hmarks := markup.foldl_take_marks []
  rw [Document.read, tokens_spaced h, List.foldl_map]
  change (markup.marks.foldl Cursor.take _).finish _ = _
  rw [hmarks]
  rfl

end LogicTree.Json
