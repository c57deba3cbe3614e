import MiddleEnd.Fixed.Lower

/-!
# What words show

A run that counts in words is compared with one that counts without a bound. What the words show of
the numbers is a `Reading`: the numbers themselves, as long as words hold them, or what is left of
them modulo `2 ^ 32`. Where overflow wraps, the second reading goes with every run. The first goes
with any run up to the first result that no word holds.

Results:
1. `Reading.succ`, `Reading.add`: what words show of the next number and of a sum.
2. `Code.read`, `SymbolTable.read`: what they show of code and symbols.
-/

namespace MiddleEnd

namespace Fixed

/-! ## Readings -/

/-- What words show of numbers. -/
inductive Reading
  /-- The numbers. -/
  | exact
  /-- The numbers modulo `2 ^ 32`. -/
  | wrapped

/-- What a run shows to its end. -/
def Overflow.reading : Overflow → Reading
  | stops => .exact
  | wraps => .wrapped

theorem Overflow.kept (o : Overflow) : o.reading = .exact ∨ o = .wraps := by
  cases o with
  | stops => exact .inl rfl
  | wraps => exact .inr rfl

namespace Reading

/-- What a word without sign shows of a number. -/
def nat : Reading → Nat → Nat
  | exact, n => n
  | wrapped, n => n % UInt32.size

/-- What a word with a sign shows of a number. -/
def int : Reading → Int → Int
  | exact, i => i
  | wrapped, i => i.bmod UInt32.size

theorem nat_exact : exact.nat = id := rfl

theorem int_exact : exact.int = id := rfl

/-- Words show a number that they hold. -/
theorem nat_of_unsigned {n : Nat} (r : Reading) (fits : Unsigned n) : r.nat n = n := by
  cases r with
  | exact => rfl
  | wrapped => exact Nat.mod_eq_of_lt fits

theorem int_of_signed {i : Int} (r : Reading) (fits : Signed i) : r.int i = i := by
  cases r with
  | exact => rfl
  | wrapped => exact fits.bmod_eq

/-- Words do not show two numbers as one of which fewer than there are words lie in between. -/
theorem int_inj_of_near {i j lo : Int} {r : Reading} (near : lo ≤ i ∧ i < lo + UInt32.size)
    (near' : lo ≤ j ∧ j < lo + UInt32.size) (same : r.int i = r.int j) : i = j := by
  cases r with
  | exact => exact same
  | wrapped =>
    have rest : i % UInt32.size = j % UInt32.size := by
      rw [← Int.bmod_emod, ← Int.bmod_emod (x := j)]
      exact congrArg (· % (UInt32.size : Int)) same
    have size : (UInt32.size : Int) = 4294967296 := rfl
    rw [size] at near near' rest
    omega

variable {o : Overflow} {r : Reading} (kept : r = exact ∨ o = .wraps)

include kept

/-- Behind a word for `n` comes one for `n + 1`, or there is none that is exact. -/
theorem succ {w : UInt32} {n : Nat} (shown : w.toNat = r.nat n) :
    (∃ next, o.succ w = some next ∧ next.toNat = r.nat (n + 1)) ∨
      r = exact ∧ ¬Unsigned (n + 1) ∧ (o = .stops → o.succ w = none) := by
  cases r with
  | exact =>
    obtain rfl : w.toNat = n := shown
    by_cases fits : Unsigned (w.toNat + 1)
    · obtain ⟨next, counted⟩ := Option.ne_none_iff_exists'.1
        fun none => (Overflow.succ_eq_none_iff (o := o).1 none).2 fits
      exact .inl ⟨next, counted, (Overflow.toNat_of_succ counted).trans (Nat.mod_eq_of_lt fits)⟩
    · exact .inr ⟨rfl, fits, fun stops => Overflow.succ_eq_none_iff.2 ⟨stops, fits⟩⟩
  | wrapped =>
    obtain rfl := kept.resolve_left nofun
    obtain ⟨next, counted⟩ := Option.ne_none_iff_exists'.1
      fun none => nomatch (Overflow.succ_eq_none_iff (o := .wraps) (w := w).1 none).1
    refine .inl ⟨next, counted, ?_⟩
    rw [Overflow.toNat_of_succ counted, shown]
    exact Nat.mod_add_mod n UInt32.size 1

/-- A sum with a word shows the sum, or there is none that is exact. -/
theorem add {a b : Int32} {i : Int} (shown : a.toInt = r.int i) :
    (∃ sum, o.add a b = some sum ∧ sum.toInt = r.int (i + b.toInt)) ∨
      r = exact ∧ ¬Signed (i + b.toInt) ∧ (o = .stops → o.add a b = none) := by
  cases r with
  | exact =>
    obtain rfl : a.toInt = i := shown
    by_cases fits : Signed (a.toInt + b.toInt)
    · obtain ⟨sum, added⟩ := Option.ne_none_iff_exists'.1
        fun none => (Overflow.add_eq_none_iff (o := o).1 none).2 fits
      exact .inl ⟨sum, added, (Overflow.toInt_of_add added).trans fits.bmod_eq⟩
    · exact .inr ⟨rfl, fits, fun stops => Overflow.add_eq_none_iff.2 ⟨stops, fits⟩⟩
  | wrapped =>
    obtain rfl := kept.resolve_left nofun
    obtain ⟨sum, added⟩ := Option.ne_none_iff_exists'.1
      fun none => nomatch (Overflow.add_eq_none_iff (o := .wraps) (a := a) (b := b).1 none).1
    refine .inl ⟨sum, added, ?_⟩
    rw [Overflow.toInt_of_add added, shown]
    exact Int.bmod_add_bmod

end Reading
end Fixed

open Fixed

/-! ## What words show of code and symbols -/

section

variable (r : Reading)

/-- An instruction with the numbers that words show. -/
def Instr.read : Instr → Instr
  | .load dst value => .load (r.nat dst) value
  | .unary op dst src => .unary op (r.nat dst) (r.nat src)
  | .binary op dst left right => .binary op (r.nat dst) (r.nat left) (r.nat right)
  | .copy dst src => .copy (r.nat dst) (r.nat src)
  | .jump target => .jump (r.nat target)
  | .jumpIfZero target test => .jumpIfZero (r.nat target) (r.nat test)
  | .mark label => .mark (r.nat label)
  | .ret value => .ret (r.nat value)

/-- A piece with the numbers that words show. -/
def Piece.read (p : Piece) : Piece :=
  ⟨p.entry, r.int p.offset, p.params.map r.nat, p.body.map (Instr.read r)⟩

/-- A code with the numbers that words show. -/
def Code.read (code : Code) : Code := ⟨code.pieces.map (Piece.read r)⟩

/-- A variable with the numbers that words show. -/
def VariableInfo.read (v : VariableInfo) : VariableInfo :=
  { v with temp := v.temp.map r.nat, offset := v.offset.map r.int }

/-- A function with the numbers that words show. -/
def FunctionInfo.read (f : FunctionInfo) : FunctionInfo := { f with offset := r.int f.offset }

/-- A symbol with the numbers that words show. -/
def Symbol.read : Symbol → Symbol
  | .var v => .var (v.read r)
  | .fn f => .fn (f.read r)

/-- A table with the numbers that words show. -/
def SymbolTable.read (t : SymbolTable) : SymbolTable :=
  { t with symbols := t.symbols.map (Symbol.read r) }

/-- Targets with the numbers that words show. -/
def LoopTargets.read (t : LoopTargets) : LoopTargets := ⟨r.nat t.exit, r.nat t.next⟩

end

@[simp] theorem Instr.read_exact : Instr.read .exact = id := by
  funext i
  cases i <;> rfl

@[simp] theorem Piece.read_exact : Piece.read .exact = id := by
  funext p
  simp [Piece.read, Reading.nat_exact, Reading.int_exact]

@[simp] theorem Code.read_exact (code : Code) : code.read .exact = code := by
  simp [Code.read]

@[simp] theorem Symbol.read_exact : Symbol.read .exact = id := by
  funext s
  cases s <;> simp [Symbol.read, VariableInfo.read, FunctionInfo.read, Reading.nat_exact,
    Reading.int_exact]

@[simp] theorem SymbolTable.read_exact (t : SymbolTable) : t.read .exact = t := by
  simp [SymbolTable.read]

section

variable {r : Reading} (t : SymbolTable) (id : SymbolId)

theorem SymbolTable.variableAt_read :
    (t.read r).variableAt id = (t.variableAt id).map (VariableInfo.read r) := by
  unfold SymbolTable.variableAt SymbolTable.read
  rw [List.getElem?_map]
  rcases t.symbols[id]? with _ | (v | f) <;> rfl

theorem SymbolTable.functionAt_read :
    (t.read r).functionAt id = (t.functionAt id).map (FunctionInfo.read r) := by
  unfold SymbolTable.functionAt SymbolTable.read
  rw [List.getElem?_map]
  rcases t.symbols[id]? with _ | (v | f) <;> rfl

/-- What is done to one symbol shows in words. -/
theorem SymbolTable.modify_read {f f' : Symbol → Symbol}
    (same : ∀ x, f' (x.read r) = (f x).read r) :
    (t.symbols.map (Symbol.read r)).modify id f' =
      (t.symbols.modify id f).map (Symbol.read r) := by
  refine List.ext_getElem? fun other => ?_
  rw [List.getElem?_modify, List.getElem?_map, List.getElem?_map, List.getElem?_modify]
  cases t.symbols[other]? with
  | none => rfl
  | some x => by_cases here : id = other <;> simp [here, same]

theorem SymbolTable.modifyVariable_read {f f' : VariableInfo → VariableInfo}
    (same : ∀ v, f' (v.read r) = (f v).read r) :
    (t.read r).modifyVariable id f' = (t.modifyVariable id f).read r := by
  refine congrArg (SymbolTable.mk · t.scopes) (SymbolTable.modify_read t id fun x => ?_)
  cases x with
  | var v => exact congrArg Symbol.var (same v)
  | fn g => rfl

theorem SymbolTable.modifyFunction_read {f f' : FunctionInfo → FunctionInfo}
    (same : ∀ g, f' (g.read r) = (f g).read r) :
    (t.read r).modifyFunction id f' = (t.modifyFunction id f).read r := by
  refine congrArg (SymbolTable.mk · t.scopes) (SymbolTable.modify_read t id fun x => ?_)
  cases x with
  | var v => rfl
  | fn g => exact congrArg Symbol.fn (same g)

end

end MiddleEnd
