import MiddleEnd.Code.Listing
import Mathlib.Data.List.Forall2

/-!
# Listings determine code

The listing of a unit shows everything of its code but where the frames begin. So it can be taken
apart again: into lines, the lines into pieces, a header into its entry and its parameters, and the
line of an instruction into its form and its parts. The name of an entry may hold anything but a
line end, also what a header is put together from.

Results:
1. `Instr.text_injective`: the line of an instruction determines it.
2. `Piece.header_injective`: the header of a piece determines its entry and its parameters.
3. `Code.text_eq_iff`: two units have the same listing if and only if they have the same pieces, up
   to where the frames begin.
-/

namespace MiddleEnd

open Listing

/-! ## Taking texts apart -/

/-- Two lists that are cut at the first `a` have the same parts. -/
theorem append_mark_inj {a : α} {xs ys r r' : List α} (hxs : a ∉ xs) (hys : a ∉ ys)
    (h : xs ++ a :: r = ys ++ a :: r') : xs = ys ∧ r = r' := by
  induction xs generalizing ys with
  | nil =>
    cases ys with
    | nil => exact ⟨rfl, (List.cons.inj h).2⟩
    | cons y ys =>
      obtain ⟨rfl, -⟩ := List.cons.inj h
      exact absurd List.mem_cons_self hys
  | cons x xs ih =>
    cases ys with
    | nil =>
      obtain ⟨rfl, -⟩ := List.cons.inj h
      exact absurd List.mem_cons_self hxs
    | cons y ys =>
      obtain ⟨rfl, tails⟩ := List.cons.inj h
      obtain ⟨rfl, rest⟩ := ih (List.not_mem_of_not_mem_cons hxs)
        (List.not_mem_of_not_mem_cons hys) tails
      exact ⟨rfl, rest⟩

/-- Two lists that are cut at the last `a` have the same parts. -/
theorem append_last_mark_inj {a : α} {xs ys r r' : List α} (hr : a ∉ r) (hr' : a ∉ r')
    (h : xs ++ a :: r = ys ++ a :: r') : xs = ys ∧ r = r' := by
  have reversed : r.reverse ++ a :: xs.reverse = r'.reverse ++ a :: ys.reverse := by
    simpa using congrArg List.reverse h
  obtain ⟨behind, before⟩ := append_mark_inj (by simpa using hr) (by simpa using hr') reversed
  exact ⟨List.reverse_injective before, List.reverse_injective behind⟩

/-- Two joined texts have the same parts if the mark that the separator starts with is in none of
them. -/
theorem intercalate_inj {a : α} {sep : List α} {xs ys : List (List α)}
    (hxs : ∀ x ∈ xs, a ∉ x) (hys : ∀ y ∈ ys, a ∉ y) (some_x : xs ≠ []) (some_y : ys ≠ [])
    (h : (a :: sep).intercalate xs = (a :: sep).intercalate ys) : xs = ys := by
  induction xs generalizing ys with
  | nil => exact absurd rfl some_x
  | cons x xs ih =>
    obtain _ | ⟨y, ys⟩ := ys
    · exact absurd rfl some_y
    obtain ⟨hx, later_x⟩ := List.forall_mem_cons.1 hxs
    obtain ⟨hy, later_y⟩ := List.forall_mem_cons.1 hys
    cases xs with
    | nil =>
      cases ys with
      | nil => simpa using h
      | cons y' ys =>
        -- one side has a separator, and the other one does not
        rw [List.intercalate_cons_cons, List.intercalate_singleton] at h
        exact absurd (h ▸ by simp) hx
    | cons x' xs =>
      cases ys with
      | nil =>
        rw [List.intercalate_cons_cons, List.intercalate_singleton] at h
        exact absurd (h ▸ by simp) hy
      | cons y' ys =>
        rw [List.intercalate_cons_cons, List.intercalate_cons_cons, List.append_assoc,
          List.append_assoc] at h
        obtain ⟨same, rest⟩ := append_mark_inj hx hy h
        rw [same, ih later_x later_y (by simp) (by simp) (List.append_cancel_left rest)]

/-- A joined text has no marks but those of its parts and of the separator. -/
theorem notMem_intercalate {c : Char} {sep : String} {texts : List String} (hsep : c ∉ sep.toList)
    (h : ∀ text ∈ texts, c ∉ text.toList) : c ∉ (sep.intercalate texts).toList := by
  induction texts with
  | nil => simp
  | cons text rest ih =>
    obtain ⟨here, later⟩ := List.forall_mem_cons.1 h
    cases rest with
    | nil => simpa using here
    | cons text' rest =>
      rw [String.intercalate_cons_cons, String.toList_append, String.toList_append]
      simp only [List.mem_append, not_or]
      exact ⟨⟨here, hsep⟩, ih later⟩

/-! ## Numbers -/

theorem isDigit_digits (n : Nat) : ∀ c ∈ Nat.toDigits 10 n, c.isDigit = true :=
  fun _ mem => Nat.isDigit_of_mem_toDigits (by decide) (by decide) mem

theorem notMem_digits {c : Char} (other : c.isDigit = false) (n : Nat) :
    c ∉ Nat.toDigits 10 n := by
  intro mem
  rw [isDigit_digits n c mem] at other
  cases other

/-- The digits of a number determine it. -/
theorem digits_injective {m n : Nat} (h : Nat.toDigits 10 m = Nat.toDigits 10 n) : m = n := by
  have read := congrArg (fun ds => Nat.ofDigitChars 10 ds 0) h
  simpa using read

/-- A number that is followed by something else ends where its digits do. -/
theorem digits_append_inj {m n : Nat} {a : Char} {r r' : List Char} (ha : a.isDigit = false)
    (h : Nat.toDigits 10 m ++ a :: r = Nat.toDigits 10 n ++ a :: r') : m = n ∧ r = r' := by
  obtain ⟨same, rest⟩ := append_mark_inj (notMem_digits ha m) (notMem_digits ha n) h
  exact ⟨digits_injective same, rest⟩

/-- The text of an integer is a number, behind a minus sign if it is negative. -/
theorem toList_toString_int (v : Int) :
    (toString v).toList = if 0 ≤ v then Nat.toDigits 10 v.toNat
      else '-' :: Nat.toDigits 10 (-v).toNat := by
  rw [Int.toString_eq_repr, Int.repr_eq_if]
  split <;> simp

/-- The text of an integer determines it. -/
theorem toString_int_injective {v w : Int} (h : (toString v).toList = (toString w).toList) :
    v = w := by
  have sign {m n : Nat} : Nat.toDigits 10 m ≠ '-' :: Nat.toDigits 10 n :=
    fun same => notMem_digits (c := '-') rfl m (same ▸ List.mem_cons_self)
  rw [toList_toString_int, toList_toString_int] at h
  split at h <;> split at h
  · have same := digits_injective h
    omega
  · exact absurd h sign
  · exact absurd h.symm sign
  · have same := digits_injective (List.cons.inj h).2
    omega

theorem notMem_toString_int {c : Char} (other : c.isDigit = false) (unsigned : c ≠ '-') (v : Int) :
    c ∉ (toString v).toList := by
  rw [toList_toString_int]
  split
  · exact notMem_digits other _
  · exact List.not_mem_cons_of_ne_of_not_mem unsigned (notMem_digits other _)

/-! ## Instructions -/

namespace Listing

@[simp] theorem toList_ofTemp (t : Temp) : (ofTemp t).toList = 'T' :: Nat.toDigits 10 t := by
  simp [ofTemp]

@[simp] theorem toList_ofLabel (l : Label) :
    (ofLabel l).toList = '_' :: 'L' :: Nat.toDigits 10 l := by
  simp [ofLabel]

@[simp] theorem toList_write (dst : Temp) (value : String) :
    (write dst value).toList =
      ' ' :: ' ' :: ' ' :: ' ' :: 'T' ::
        (Nat.toDigits 10 dst ++ ' ' :: '<' :: '-' :: ' ' :: value.toList) := by
  simp [write, indent]

theorem write_injective {d d' : Temp} {value value' : String}
    (h : write d value = write d' value') : d = d' ∧ value.toList = value'.toList := by
  have h := congrArg String.toList h
  simp only [toList_write, List.cons.injEq, true_and] at h
  obtain ⟨rfl, h⟩ := digits_append_inj rfl h
  simpa using h

end Listing

/-- What kind of instruction a line is. -/
inductive Form
  | load | unary | binary | copy | jump | jumpIfZero | mark | ret

/-- The kind of an instruction. -/
def Instr.form : Instr → Form
  | load .. => .load
  | unary .. => .unary
  | binary .. => .binary
  | copy .. => .copy
  | jump _ => .jump
  | jumpIfZero .. => .jumpIfZero
  | mark _ => .mark
  | ret _ => .ret

/-- Reads off the kind of what is written to a temporary. -/
def formOfValue : List Char → Form
  | '(' :: _ => .binary
  | 'T' :: _ => .copy
  | _ :: 'T' :: _ => .unary
  | _ => .load

/-- Reads off the kind of an instruction from its line. -/
def formOfLine : List Char → Form
  | '_' :: _ => .mark
  | ' ' :: ' ' :: ' ' :: ' ' :: 'J' :: _ => .jump
  | ' ' :: ' ' :: ' ' :: ' ' :: 'I' :: _ => .jumpIfZero
  | ' ' :: ' ' :: ' ' :: ' ' :: 'R' :: _ => .ret
  | line => formOfValue ((line.drop 5).dropWhile Char.isDigit |>.drop 4)

theorem formOfLine_write (dst : Temp) (value : String) :
    formOfLine (write dst value).toList = formOfValue value.toList := by
  rw [toList_write, formOfLine]
  · simp [List.dropWhile_append_of_pos (isDigit_digits dst)]
  all_goals simp

/-- An integer is not taken for an operation or a temporary. -/
theorem formOfValue_toString (v : Int) : formOfValue (toString v).toList = .load := by
  have bracket := notMem_toString_int (c := '(') rfl (by decide) v
  have temp := notMem_toString_int (c := 'T') rfl (by decide) v
  unfold formOfValue
  split <;> simp_all

/-- The line of an instruction tells its kind. -/
theorem Instr.formOfLine_text (i : Instr) : formOfLine i.text.toList = i.form := by
  cases i with
  | load dst v => exact (formOfLine_write dst _).trans (formOfValue_toString v)
  | unary op dst src =>
    refine (formOfLine_write dst _).trans ?_
    cases op <;> simp [UnaryOp.symbol, formOfValue, form]
  | binary op dst left right =>
    refine (formOfLine_write dst _).trans ?_
    simp [formOfValue, form]
  | copy dst src =>
    refine (formOfLine_write dst _).trans ?_
    simp [formOfValue, form]
  | jump | jumpIfZero | mark | ret => simp [text, indent, formOfLine, form]

/-- The line of an instruction determines it. -/
theorem Instr.text_injective {i j : Instr} (h : i.text = j.text) : i = j := by
  have same : i.form = j.form := by rw [← formOfLine_text, ← formOfLine_text, h]
  have chars := congrArg String.toList h
  cases i <;> cases j <;> cases same
  case load.load =>
    obtain ⟨rfl, value⟩ := write_injective h
    rw [toString_int_injective value]
  case unary.unary op _ src op' _ src' =>
    obtain ⟨rfl, value⟩ := write_injective h
    have value : op.symbol.toList ++ 'T' :: Nat.toDigits 10 src =
        op'.symbol.toList ++ 'T' :: Nat.toDigits 10 src' := by simpa using value
    have bare (op : UnaryOp) : 'T' ∉ op.symbol.toList := by cases op <;> decide
    obtain ⟨symbol, src⟩ := append_mark_inj (bare op) (bare op') value
    rw [UnaryOp.symbol_injective (String.toList_inj.1 symbol), digits_injective src]
  case binary.binary op _ left right op' _ left' right' =>
    obtain ⟨rfl, value⟩ := write_injective h
    have value : Nat.toDigits 10 left ++
          ' ' :: (op.symbol.toList ++ ' ' :: 'T' :: (Nat.toDigits 10 right ++ [')'])) =
        Nat.toDigits 10 left' ++
          ' ' :: (op'.symbol.toList ++ ' ' :: 'T' :: (Nat.toDigits 10 right' ++ [')'])) := by
      simpa using value
    have bare (op : BinaryOp) : ' ' ∉ op.symbol.toList := by cases op <;> decide
    obtain ⟨rfl, operator⟩ := digits_append_inj rfl value
    obtain ⟨symbol, operand⟩ := append_mark_inj (bare op) (bare op') operator
    obtain ⟨rfl, -⟩ := digits_append_inj rfl (List.cons.inj operand).2
    rw [BinaryOp.symbol_injective (String.toList_inj.1 symbol)]
  case copy.copy =>
    obtain ⟨rfl, value⟩ := write_injective h
    rw [toList_ofTemp, toList_ofTemp] at value
    rw [digits_injective (List.cons.inj value).2]
  case jumpIfZero.jumpIfZero target test target' test' =>
    simp only [text, indent, String.toList_append, String.reduceToList, toList_ofTemp,
      toList_ofLabel, List.append_assoc, List.cons_append, List.nil_append, List.cons.injEq,
      true_and] at chars
    obtain ⟨rfl, digits⟩ := digits_append_inj rfl chars
    simp only [List.cons.injEq, true_and] at digits
    rw [digits_injective digits]
  case jump.jump target target' =>
    have digits : Nat.toDigits 10 target = Nat.toDigits 10 target' := by
      simpa [text] using chars
    rw [digits_injective digits]
  case mark.mark label label' =>
    have digits : Nat.toDigits 10 label = Nat.toDigits 10 label' := by
      simpa [text] using chars
    rw [digits_injective digits]
  case ret.ret value value' =>
    have digits : Nat.toDigits 10 value = Nat.toDigits 10 value' := by
      simpa [text] using chars
    rw [digits_injective digits]

/-! ## Headers -/

/-- The text of the parameters of a header. -/
def Listing.ofParams (ts : List Temp) : String := ", ".intercalate (ts.map ofTemp)

/-- The header of a piece. -/
def Piece.header (p : Piece) : String :=
  "FUNCTION<" ++ ofEntry p.entry ++ ">(" ++ ofParams p.params ++ "):"

theorem Piece.lines_eq (p : Piece) : p.lines = p.header :: (p.body.map Instr.text ++ ["END"]) := rfl

/-- The parameters of a header determine the temporaries. -/
theorem Listing.ofParams_injective {ps qs : List Temp} (h : ofParams ps = ofParams qs) :
    ps = qs := by
  have temps : Function.Injective fun t => (ofTemp t).toList := by
    intro t u same
    have same : (ofTemp t).toList = (ofTemp u).toList := same
    rw [toList_ofTemp, toList_ofTemp] at same
    exact digits_injective (List.cons.inj same).2
  have bare (ts : List Temp) : ∀ l ∈ ts.map fun t => (ofTemp t).toList, ',' ∉ l := by
    simp [notMem_digits]
  have first (t : Temp) (ts : List Temp) : ofParams (t :: ts) ≠ ofParams [] := by
    cases ts <;> simp [ofParams, ofTemp]
  cases ps with
  | nil =>
    cases qs with
    | nil => rfl
    | cons q qs => exact absurd h.symm (first q qs)
  | cons p ps =>
    cases qs with
    | nil => exact absurd h (first p ps)
    | cons q qs =>
      have h := congrArg String.toList h
      rw [ofParams, ofParams, String.toList_intercalate, String.toList_intercalate, List.map_map,
        List.map_map] at h
      exact temps.list_map (intercalate_inj (bare _) (bare _) nofun nofun h)

theorem Listing.notMem_ofParams {c : Char} (digit : c.isDigit = false)
    (other : c ∉ ['T', ',', ' ']) (ts : List Temp) : c ∉ (ofParams ts).toList := by
  simp only [List.mem_cons, List.not_mem_nil, or_false, not_or] at other
  exact notMem_intercalate (by simp [other]) (by simp [other, notMem_digits digit])

/-- The header of a piece determines its entry and its parameters. The entry ends at the last
bracket that opens, since no parameter has one. -/
theorem Piece.header_injective {p q : Piece} (h : p.header = q.header) :
    p.entry = q.entry ∧ p.params = q.params := by
  have bare (ts : List Temp) : '(' ∉ (ofParams ts).toList ++ [')', ':'] := by
    simp [notMem_ofParams]
  have chars : (p.entry.toList ++ ['>']) ++ '(' :: ((ofParams p.params).toList ++ [')', ':']) =
      (q.entry.toList ++ ['>']) ++ '(' :: ((ofParams q.params).toList ++ [')', ':']) := by
    simpa [header, ofEntry] using congrArg String.toList h
  obtain ⟨entry, params⟩ := append_last_mark_inj (bare _) (bare _) chars
  exact ⟨String.toList_inj.1 (List.append_cancel_right entry),
    ofParams_injective (String.toList_inj.1 (List.append_cancel_right params))⟩

/-! ## Lines -/

/-- The lines of pieces, one after the other: an empty line stands behind each. -/
def linesOf (ps : List Piece) : List String := ps.flatMap fun p => p.lines ++ [""]

theorem linesOf_cons (p : Piece) (ps : List Piece) :
    linesOf (p :: ps) = p.header :: (p.body.map Instr.text ++ "END" :: "" :: linesOf ps) := by
  simp [linesOf, Piece.lines_eq]

/-- The text of a unit is its lines. -/
theorem Code.text_eq_lines (c : Code) : c.text = "\n".intercalate (linesOf c.pieces) := by
  obtain ⟨pieces⟩ := c
  show "\n".intercalate (pieces.map fun p => p.text ++ "\n") = "\n".intercalate (linesOf pieces)
  induction pieces with
  | nil => rfl
  | cons p rest ih =>
    have ended : p.text ++ "\n" = "\n".intercalate (p.lines ++ [""]) := by
      rw [String.intercalate_append_of_ne_nil (by simp [Piece.lines]) (by simp)]
      simp [Piece.text]
    cases rest with
    | nil => simpa [linesOf] using ended
    | cons p' rest =>
      rw [List.map_cons, String.intercalate_cons_of_ne_nil (by simp), ih, ended]
      exact (String.intercalate_append_of_ne_nil (by simp) (by simp [linesOf_cons])).symm

theorem Instr.oneLine (i : Instr) : '\n' ∉ i.text.toList := by
  cases i with
  | load dst v =>
    have value := notMem_toString_int (c := '\n') rfl (by decide) v
    simpa [text, notMem_digits] using value
  | unary op dst src => cases op <;> simp [text, notMem_digits, UnaryOp.symbol]
  | binary op dst left right => cases op <;> simp [text, notMem_digits, BinaryOp.symbol]
  | copy | jump | jumpIfZero | mark | ret => simp [text, indent, notMem_digits]

theorem Piece.header_oneLine {p : Piece} (plain : '\n' ∉ p.entry.toList) :
    '\n' ∉ p.header.toList := by
  simp [header, ofEntry, plain, notMem_ofParams]

theorem oneLine_of_mem_linesOf {ps : List Piece} (plain : ∀ p ∈ ps, '\n' ∉ p.entry.toList) :
    ∀ line ∈ linesOf ps, '\n' ∉ line.toList := by
  intro line mem
  obtain ⟨p, here, mem⟩ := List.mem_flatMap.1 mem
  rw [Piece.lines_eq] at mem
  simp only [List.cons_append, List.append_assoc, List.mem_cons, List.mem_append, List.mem_map,
    List.not_mem_nil, or_false, false_or] at mem
  obtain rfl | ⟨i, -, rfl⟩ | rfl | rfl := mem
  · exact Piece.header_oneLine (plain p here)
  · exact i.oneLine
  · decide
  · decide

theorem Instr.text_ne_end (i : Instr) : i.text ≠ "END" := by
  intro h
  have h := congrArg String.toList h
  cases i <;> simp [text, indent] at h

/-- Two pieces that differ at most in where their frames begin. -/
def Piece.Alike (p q : Piece) : Prop := p.entry = q.entry ∧ p.params = q.params ∧ p.body = q.body

/-- The lines of pieces determine all that they show. The code of a piece ends at the first line
that is `END`, since no instruction is written like that. -/
theorem alike_of_linesOf {ps qs : List Piece} (h : linesOf ps = linesOf qs) :
    List.Forall₂ Piece.Alike ps qs := by
  induction ps generalizing qs with
  | nil =>
    cases qs with
    | nil => exact .nil
    | cons q qs => rw [linesOf_cons] at h; cases h
  | cons p ps ih =>
    cases qs with
    | nil => rw [linesOf_cons] at h; cases h
    | cons q qs =>
      rw [linesOf_cons, linesOf_cons] at h
      obtain ⟨header, rest⟩ := List.cons.inj h
      have code (p : Piece) : "END" ∉ p.body.map Instr.text := by simp [Instr.text_ne_end]
      obtain ⟨body, rest⟩ := append_mark_inj (code p) (code q) rest
      have body := List.map_injective_iff.2 (fun _ _ => Instr.text_injective) body
      obtain ⟨entry, params⟩ := Piece.header_injective header
      exact .cons ⟨entry, params, body⟩ (ih (List.cons.inj rest).2)

theorem linesOf_of_alike {ps qs : List Piece} (h : List.Forall₂ Piece.Alike ps qs) :
    linesOf ps = linesOf qs := by
  induction h with
  | nil => rfl
  | cons alike _ ih =>
    obtain ⟨entry, params, body⟩ := alike
    rw [linesOf_cons, linesOf_cons, Piece.header, Piece.header, entry, params, body, ih]

theorem intercalate_linesOf_ne_empty (p : Piece) (ps : List Piece) :
    "\n".intercalate (linesOf (p :: ps)) ≠ "\n".intercalate (linesOf []) := by
  rw [linesOf_cons, String.intercalate_cons_of_ne_nil (by simp)]
  simp [Piece.header, linesOf]

/-- The text of pieces whose entries are names in one line determines their lines. -/
theorem linesOf_injective {ps qs : List Piece} (plain : ∀ p ∈ ps, '\n' ∉ p.entry.toList)
    (plain' : ∀ q ∈ qs, '\n' ∉ q.entry.toList)
    (h : "\n".intercalate (linesOf ps) = "\n".intercalate (linesOf qs)) :
    linesOf ps = linesOf qs := by
  cases ps with
  | nil =>
    cases qs with
    | nil => rfl
    | cons q qs => exact absurd h.symm (intercalate_linesOf_ne_empty q qs)
  | cons p ps =>
    cases qs with
    | nil => exact absurd h (intercalate_linesOf_ne_empty p ps)
    | cons q qs =>
      have chars := congrArg String.toList h
      rw [String.toList_intercalate, String.toList_intercalate] at chars
      have same := intercalate_inj (List.forall_mem_map.2 (oneLine_of_mem_linesOf plain))
        (List.forall_mem_map.2 (oneLine_of_mem_linesOf plain')) (by simp [linesOf_cons])
        (by simp [linesOf_cons]) chars
      exact List.map_injective_iff.2 (fun _ _ => String.toList_injective) same

/-- Where no entry has a line end in its name, two units have the same listing if and only if they
have the same pieces in the same order, up to where the frames begin. -/
theorem Code.text_eq_iff {c c' : Code} (plain : ∀ p ∈ c.pieces, '\n' ∉ p.entry.toList)
    (plain' : ∀ p ∈ c'.pieces, '\n' ∉ p.entry.toList) :
    c.text = c'.text ↔ List.Forall₂ Piece.Alike c.pieces c'.pieces := by
  rw [text_eq_lines, text_eq_lines]
  exact ⟨fun h => alike_of_linesOf (linesOf_injective plain plain' h),
    fun h => congrArg _ (linesOf_of_alike h)⟩

/-- Two functions, the first of which is named like the end of a header. -/
def bracketed (offset : Int) : Code :=
  ⟨[⟨">(T1):", offset, [7, 10], [.mark 0, .load 1 (-3), .unary .negate 2 1, .jumpIfZero 0 2]⟩,
    ⟨"main", 0, [], [.ret 2]⟩]⟩

theorem Code.text_eq_iff_of_bracketed :
    (∀ p ∈ (bracketed 8).pieces, '\n' ∉ p.entry.toList) ∧
    (∀ p ∈ (bracketed 16).pieces, '\n' ∉ p.entry.toList) ∧
    (bracketed 8).text = (bracketed 16).text ∧
    List.Forall₂ Piece.Alike (bracketed 8).pieces (bracketed 16).pieces := by
  have plain (offset : Int) : ∀ p ∈ (bracketed offset).pieces, '\n' ∉ p.entry.toList := by
    simp [bracketed]
  have same : (bracketed 8).text = (bracketed 16).text := by decide +kernel
  exact ⟨plain 8, plain 16, same, (text_eq_iff (plain 8) (plain 16)).1 same⟩

/-- A name with line ends in it can stand for a whole function more. -/
example :
    Code.text ⟨[⟨"f>():\nEND\n\nFUNCTION<_g", 0, [], []⟩]⟩ =
      Code.text ⟨[⟨"f", 0, [], []⟩, ⟨"g", 0, [], []⟩]⟩ := by decide +kernel

end MiddleEnd
