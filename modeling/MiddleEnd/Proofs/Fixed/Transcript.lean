import MiddleEnd.Fixed.Emitter
import Mathlib.Data.List.Forall2

/-!
# What an emitter records

A transcript lists the requests that were made of an emitter, in any order and whether or not they
succeeded, each with the answer. All that an emitter has recorded can be read off its transcript:
the numbers that it gave away, and for each function that was ended what was emitted into it since
it was opened. A function that is opened over another one starts over, and what is asked for outside
of any function leaves no trace. The emitter counts in words, so the numbers end or start over when
the words are used up.

Results:
1. `Served`, `Emitter.served`: what one request can do, with all reasons why it gets no answer.
2. `Counted.take`, `Counted.length_of_overflow`: numbers that are given away, and their end.
3. `Recorded.step`, `Recorded.serveAll`: an emitter stays what its transcript tells.
4. `transcript_tells`: the whole record of a new emitter.
-/

namespace MiddleEnd.Fixed

/-! ## Requests -/

/-- What can be asked of an emitter. -/
inductive Request
  | freshTemp
  | freshLabel
  /-- The name that a function is going to be entered by. -/
  | entry (f : FunctionInfo)
  | resetOffset
  | nextOffset (size : Int32)
  | start (f : FunctionInfo) (params : List Temp)
  | finish
  | load (value : Int)
  | unary (op : UnaryOp) (src : Temp)
  | binary (op : BinaryOp) (left right : Temp)
  | copy (dst src : Temp)
  | jump (target : Label)
  | jumpIfZero (target : Label) (test : Temp)
  | mark (label : Label)
  | ret (value : Temp)

/-- What an emitter answers. -/
inductive Answer
  | temp (t : Temp)
  | label (l : Label)
  | entry (name : String)
  | offset (bytes : Int)
  | done
deriving DecidableEq

namespace Request

/-- What an emitter does on a request. -/
def run (o : Overflow) : Request → Emit Answer
  | freshTemp => .temp <$> Emit.freshTemp o
  | freshLabel => .label <$> Emit.freshLabel o
  | entry f => return .entry f.name
  | resetOffset => (fun _ => .done) <$> Emit.resetOffset
  | nextOffset size => .offset <$> Emit.nextOffset o size
  | start f params => (fun _ => .done) <$> Emit.start f params
  | finish => (fun _ => .done) <$> Emit.finish
  | load value => .temp <$> Emit.load o value
  | unary op src => .temp <$> Emit.unary o op src
  | binary op left right => .temp <$> Emit.binary o op left right
  | copy dst src => (fun _ => .done) <$> Emit.copy dst src
  | jump target => (fun _ => .done) <$> Emit.jump target
  | jumpIfZero target test => (fun _ => .done) <$> Emit.jumpIfZero target test
  | mark label => (fun _ => .done) <$> Emit.mark label
  | ret value => (fun _ => .done) <$> Emit.ret value

/-- The instruction that is asked for, where it writes a temporary that is still to be taken. -/
def write? : Request → Option (Temp → Instr)
  | load value => some fun dst => .load dst value
  | unary op src => some fun dst => .unary op dst src
  | binary op left right => some fun dst => .binary op dst left right
  | _ => none

/-- The instruction that is asked for, where it takes no temporary. -/
def instr? : Request → Option Instr
  | copy dst src => some (.copy dst src)
  | jump target => some (.jump target)
  | jumpIfZero target test => some (.jumpIfZero target test)
  | mark label => some (.mark label)
  | ret value => some (.ret value)
  | _ => none

end Request

/-- Whether a request asks for a temporary. -/
def Request.takesTemp (r : Request) : Prop := r = .freshTemp ∨ r.write?.isSome

/-- The answer to a request, and the emitter behind it, also if there is none. -/
def Emitter.serve (o : Overflow) (e : Emitter) (r : Request) : Except Stop Answer × Emitter :=
  match r.run o e with
  | .ok answer e => (.ok answer, e)
  | .error stop e => (.error stop, e)

/-- What a request can do. -/
inductive Served (o : Overflow) (e : Emitter) : Request → Except Stop Answer → Emitter → Prop
  | freshTemp {next : UInt32} : o.succ e.temps = some next →
      Served o e .freshTemp (.ok (.temp e.temps.toNat)) { e with temps := next }
  | freshLabel {next : UInt32} : o.succ e.labels = some next →
      Served o e .freshLabel (.ok (.label e.labels.toNat)) { e with labels := next }
  | entry {f : FunctionInfo} : Served o e (.entry f) (.ok (.entry f.name)) e
  | resetOffset : Served o e .resetOffset (.ok .done) { e with paramOffset := 0 }
  | nextOffset {size sum : Int32} : o.add e.paramOffset size = some sum →
      Served o e (.nextOffset size) (.ok (.offset e.paramOffset.toInt))
        { e with paramOffset := sum }
  | start {f : FunctionInfo} {params : List Temp} :
      Served o e (.start f params) (.ok .done)
        { e with current := some ⟨f.entryName, f.offset, params, []⟩ }
  | finish {piece : Piece} : e.current = some piece →
      Served o e .finish (.ok .done) { e with current := none, finished := e.finished ++ [piece] }
  | write {r : Request} {write : Temp → Instr} {piece : Piece} {next : UInt32} :
      r.write? = some write → e.current = some piece → o.succ e.temps = some next →
      Served o e r (.ok (.temp e.temps.toNat)) { e with
        temps := next
        current := some { piece with body := piece.body ++ [write e.temps.toNat] } }
  | instr {r : Request} {i : Instr} {piece : Piece} : r.instr? = some i →
      e.current = some piece →
      Served o e r (.ok .done) { e with current := some { piece with body := piece.body ++ [i] } }
  | refused {r : Request} : e.current = none → Served o e r (.error Emit.noOpenFunction) e
  | noTemp {r : Request} : r.takesTemp → o.succ e.temps = none →
      Served o e r (.error .overflow) e
  | noLabel : o.succ e.labels = none → Served o e .freshLabel (.error .overflow) e
  | noOffset {size : Int32} : o.add e.paramOffset size = none →
      Served o e (.nextOffset size) (.error .overflow) e

/-- A request that gets no answer changes nothing. -/
theorem Served.of_error {o : Overflow} {e e' : Emitter} {r : Request} {stop : Stop}
    (h : Served o e r (.error stop) e') : e' = e := by
  cases h <;> rfl

namespace Emitter

variable {o : Overflow}

theorem serve_map {r : Request} {α : Type} {step : Emit α} {f : α → Answer}
    (h : r.run o = f <$> step) (e : Emitter) :
    e.serve o r = match step e with
      | .ok a e => (.ok (f a), e)
      | .error stop e => (.error stop, e) := by
  rw [serve, h]
  show (match EStateM.map f step e with | .ok a e => _ | .error stop e => _) = _
  unfold EStateM.map
  cases step e <;> rfl

theorem served_write {r : Request} {write : Temp → Instr} (asks : r.write? = some write)
    (h : r.run o = .temp <$> Emit.emitFresh o write) (e : Emitter) :
    Served o e r (e.serve o r).1 (e.serve o r).2 := by
  rw [serve_map h]
  cases current : e.current with
  | none =>
    rw [Emit.emitFresh_of_closed write current]
    exact .refused current
  | some piece =>
    cases counted : o.succ e.temps with
    | none =>
      rw [Emit.emitFresh_of_overflow write current counted]
      exact .noTemp (.inr (Option.isSome_of_eq_some asks)) counted
    | some next =>
      rw [Emit.emitFresh_of_open write current counted]
      exact .write asks current counted

theorem served_instr {r : Request} {i : Instr} (asks : r.instr? = some i)
    (h : r.run o = (fun _ => .done) <$> Emit.emit i) (e : Emitter) :
    Served o e r (e.serve o r).1 (e.serve o r).2 := by
  rw [serve_map h]
  cases current : e.current with
  | none =>
    rw [Emit.emit_of_closed i current]
    exact .refused current
  | some piece =>
    rw [Emit.emit_of_open i current]
    exact .instr asks current

/-- What an emitter does on a request is something that the request can do. -/
theorem served (o : Overflow) (e : Emitter) (r : Request) :
    Served o e r (e.serve o r).1 (e.serve o r).2 := by
  cases r with
  | freshTemp =>
    have run_freshTemp : Request.freshTemp.run o = .temp <$> Emit.freshTemp o := rfl
    rw [serve_map run_freshTemp]
    cases counted : o.succ e.temps with
    | none =>
      rw [Emit.freshTemp_of_overflow counted]
      exact .noTemp (.inl rfl) counted
    | some next =>
      rw [Emit.freshTemp_of_succ counted]
      exact .freshTemp counted
  | freshLabel =>
    have run_freshLabel : Request.freshLabel.run o = .label <$> Emit.freshLabel o := rfl
    rw [serve_map run_freshLabel]
    cases counted : o.succ e.labels with
    | none =>
      rw [Emit.freshLabel_of_overflow counted]
      exact .noLabel counted
    | some next =>
      rw [Emit.freshLabel_of_succ counted]
      exact .freshLabel counted
  | entry f => exact .entry
  | resetOffset => exact .resetOffset
  | nextOffset size =>
    have run_nextOffset : (Request.nextOffset size).run o = .offset <$> Emit.nextOffset o size :=
      rfl
    rw [serve_map run_nextOffset]
    cases added : o.add e.paramOffset size with
    | none =>
      rw [Emit.nextOffset_of_overflow added]
      exact .noOffset added
    | some sum =>
      rw [Emit.nextOffset_of_add added]
      exact .nextOffset added
  | start f params => exact .start
  | finish =>
    have run_finish : Request.finish.run o = (fun _ => .done) <$> Emit.finish := rfl
    rw [serve_map run_finish]
    cases current : e.current with
    | none =>
      rw [Emit.finish_of_closed current]
      exact .refused current
    | some piece =>
      rw [Emit.finish_of_open current]
      exact .finish current
  | load | unary | binary => exact served_write rfl rfl e
  | copy | jump | jumpIfZero | mark | ret => exact served_instr rfl rfl e

end Emitter

/-! ## Transcripts -/

/-- A request and its answer. -/
structure Event where
  request : Request
  answer : Except Stop Answer

namespace Event

/-- The temporary that was given away. -/
def temp? (event : Event) : Option Temp :=
  match event.answer with
  | .ok (.temp t) => some t
  | _ => none

/-- The label that was given away. -/
def label? (event : Event) : Option Label :=
  match event.answer with
  | .ok (.label l) => some l
  | _ => none

/-- The instruction that was emitted. -/
def emitted? (event : Event) : Option Instr :=
  match event.answer with
  | .ok (.temp t) => event.request.write?.map fun write => write t
  | .ok .done => event.request.instr?
  | _ => none

/-- Whether a function was opened. -/
def opens (event : Event) : Bool :=
  match event.answer, event.request with
  | .ok _, .start .. => true
  | _, _ => false

/-- Whether a function was ended. -/
def ends (event : Event) : Bool :=
  match event.answer, event.request with
  | .ok _, .finish => true
  | _, _ => false

/-- What asks for an instruction neither opens nor ends a function. -/
theorem of_asks {r : Request} (asks : r.write?.isSome ∨ r.instr?.isSome)
    (answer : Except Stop Answer) :
    opens ⟨r, answer⟩ = false ∧ ends ⟨r, answer⟩ = false := by
  cases r with
  | start | finish => simp [Request.write?, Request.instr?] at asks
  | _ => cases answer <;> exact ⟨rfl, rfl⟩

end Event

/-- Serves requests one after the other and goes on behind those that get no answer. -/
def Emitter.serveAll (o : Overflow) (e : Emitter) : List Request → List Event × Emitter
  | [] => ([], e)
  | r :: rest =>
    let (events, last) := (e.serve o r).2.serveAll o rest
    (⟨r, (e.serve o r).1⟩ :: events, last)

/-- Behind `past` a function is open, and `piece` is what was emitted into it: all that was emitted
since the last request that opened a function. -/
def OpenPiece (past : List Event) (piece : Piece) : Prop :=
  ∃ before f params since, past = before ++ ⟨.start f params, .ok .done⟩ :: since ∧
    (∀ event ∈ since, event.opens = false ∧ event.ends = false) ∧
    piece = ⟨f.entryName, f.offset, params, since.filterMap Event.emitted?⟩

/-- What stands before each end of a function, in order, in a transcript that goes on behind
`past`. -/
def beforeEnds (past : List Event) : List Event → List (List Event)
  | [] => []
  | event :: rest =>
    (if event.ends then [past] else []) ++ beforeEnds (past ++ [event]) rest

/-- Numbers that were given away one after the other, starting with zero. -/
structure Numbered (o : Overflow) (given : List Nat) : Prop where
  /-- Words show them modulo `2 ^ 32`. -/
  wrapped : given = (List.range given.length).map (· % UInt32.size)
  /-- Where overflow stops, they end before words do. -/
  stops : o = .stops → given.length < UInt32.size

/-- Up to as many as there are words, the numbers are `0`, `1`, `2` and so on, without a gap or a
repetition, and where overflow stops there are never more. -/
theorem Numbered.eq_range {o : Overflow} {given : List Nat} (h : Numbered o given)
    (lasts : o = .stops ∨ given.length ≤ UInt32.size) : given = List.range given.length := by
  have le : given.length ≤ UInt32.size := lasts.elim (fun stops => Nat.le_of_lt (h.stops stops)) id
  refine h.wrapped.trans ((List.map_congr_left fun n mem => ?_).trans (List.map_id _))
  exact Nat.mod_eq_of_lt (Nat.lt_of_lt_of_le (List.mem_range.1 mem) le)

/-- The numbers that were given away, and the word for the next one. -/
structure Counted (o : Overflow) (given : List Nat) (next : UInt32) : Prop where
  numbered : Numbered o given
  next : next.toNat = given.length % UInt32.size

namespace Counted

variable {o : Overflow} {given : List Nat} {w next : UInt32}

theorem start : Counted o [] 0 := ⟨⟨rfl, fun _ => by decide⟩, rfl⟩

/-- One more number is given away. -/
theorem take (h : Counted o given w) (counted : o.succ w = some next) :
    Counted o (given ++ [w.toNat]) next := by
  have length : (given ++ [w.toNat]).length = given.length + 1 := List.length_append
  refine ⟨⟨?_, fun stops => ?_⟩, ?_⟩
  · rw [length, List.range_succ, List.map_append, ← h.numbered.wrapped, h.next]
    rfl
  · have below := h.numbered.stops stops
    have shown := h.next.trans (Nat.mod_eq_of_lt below)
    have fits : Unsigned (w.toNat + 1) := Decidable.of_not_not fun big =>
      nomatch (Overflow.succ_eq_none_iff.2 ⟨stops, big⟩).symm.trans counted
    rw [length, ← shown]
    exact fits
  · rw [Overflow.toNat_of_succ counted, length, h.next, Nat.mod_add_mod]

/-- There is no word for the next number once all but the last one are taken. -/
theorem length_of_overflow (h : Counted o given w) (spent : o.succ w = none) :
    o = .stops ∧ given.length + 1 = UInt32.size := by
  obtain ⟨stops, big⟩ := Overflow.succ_eq_none_iff.1 spent
  have below := h.numbered.stops stops
  rw [Unsigned, h.next, Nat.mod_eq_of_lt below] at big
  exact ⟨stops, by omega⟩

end Counted

/-- A transcript tells what an emitter has recorded. -/
structure Recorded (o : Overflow) (past : List Event) (e : Emitter) : Prop where
  temps : Counted o (past.filterMap Event.temp?) e.temps
  labels : Counted o (past.filterMap Event.label?) e.labels
  current : ∀ piece, e.current = some piece ↔ OpenPiece past piece
  finished : List.Forall₂ OpenPiece (beforeEnds [] past) e.finished

section

variable {o : Overflow} {past events later : List Event} {event : Event} {piece : Piece}
  {e e' : Emitter}
  {f : FunctionInfo} {params : List Temp}

theorem beforeEnds_append (past events later : List Event) :
    beforeEnds past (events ++ later) =
      beforeEnds past events ++ beforeEnds (past ++ events) later := by
  induction events generalizing past with
  | nil => simp [beforeEnds]
  | cons event rest ih => simp [beforeEnds, ih]

theorem beforeEnds_concat (events : List Event) (event : Event) :
    beforeEnds [] (events ++ [event]) =
      beforeEnds [] events ++ if event.ends then [events] else [] := by
  rw [beforeEnds_append]
  simp [beforeEnds]

namespace OpenPiece

/-- The last function that was opened was opened by the last event or before it. -/
theorem concat_iff : OpenPiece (past ++ [event]) piece ↔
    (∃ f params, event = ⟨.start f params, .ok .done⟩ ∧
      piece = ⟨f.entryName, f.offset, params, []⟩) ∨
    event.opens = false ∧ event.ends = false ∧ ∃ earlier, OpenPiece past earlier ∧
      piece = { earlier with body := earlier.body ++ event.emitted?.toList } := by
  constructor
  · rintro ⟨before, f, params, since, split, inside, rfl⟩
    -- the function was opened by `event`, or `event` is the last of those since
    rcases since.eq_nil_or_concat' with rfl | ⟨since, last, rfl⟩
    · obtain ⟨-, same⟩ := List.append_inj' split rfl
      exact .inl ⟨f, params, List.singleton_inj.1 same, rfl⟩
    · rw [← List.cons_append, ← List.append_assoc] at split
      obtain ⟨rfl, same⟩ := List.append_inj' split rfl
      obtain rfl := List.singleton_inj.1 same
      obtain ⟨inside, last⟩ := List.forall_mem_append.1 inside
      obtain ⟨opens, ends⟩ := last event (List.mem_singleton_self _)
      refine .inr ⟨opens, ends, _, ⟨before, f, params, since, rfl, inside, rfl⟩, ?_⟩
      rw [List.filterMap_append]
      cases emitted : event.emitted? <;> simp [emitted]
  · rintro (⟨f, params, rfl, rfl⟩ | ⟨opens, ends, _, ⟨before, f, params, since, rfl, inside, rfl⟩,
      rfl⟩)
    · exact ⟨past, f, params, [], rfl, List.forall_mem_nil _, rfl⟩
    · refine ⟨before, f, params, since ++ [event], by simp, ?_, ?_⟩
      · exact List.forall_mem_append.2 ⟨inside, List.forall_mem_singleton.2 ⟨opens, ends⟩⟩
      · rw [List.filterMap_append]
        cases emitted : event.emitted? <;> simp [emitted]

/-- Nothing is open but what was opened last. -/
theorem concat_start (past : List Event) (f : FunctionInfo) (params : List Temp) :
    OpenPiece (past ++ [⟨.start f params, .ok .done⟩]) piece ↔
      piece = ⟨f.entryName, f.offset, params, []⟩ := by
  rw [concat_iff]
  simp [Event.opens]

theorem not_concat_ends (ends : event.ends = true) : ¬OpenPiece (past ++ [event]) piece := by
  rw [concat_iff, ends]
  rintro (⟨f, params, rfl, -⟩ | ⟨-, other, -⟩)
  · cases ends
  · cases other

end OpenPiece

namespace Recorded

theorem start : Recorded o [] {} :=
  ⟨.start, .start, fun piece => ⟨nofun, fun ⟨_, _, _, _, split, _⟩ => by simp at split⟩, .nil⟩

/-- An event that neither opens nor ends a function emits into the open one, if anything. -/
theorem pieces (h : Recorded o past e) (opens : event.opens = false) (ends : event.ends = false)
    (current : e'.current = e.current.map fun earlier =>
      { earlier with body := earlier.body ++ event.emitted?.toList })
    (finished : e'.finished = e.finished) :
    (∀ piece, e'.current = some piece ↔ OpenPiece (past ++ [event]) piece) ∧
      List.Forall₂ OpenPiece (beforeEnds [] (past ++ [event])) e'.finished := by
  constructor
  · intro piece
    rw [current, Option.map_eq_some_iff, OpenPiece.concat_iff, or_iff_right, and_iff_right opens,
      and_iff_right ends]
    · simp only [h.current, eq_comm]
    · rintro ⟨f, params, rfl, -⟩
      cases opens
  · rw [beforeEnds_concat, ends, finished]
    simpa using h.finished

/-- What is given away behind an event that gives no temporary away, or one. -/
theorem counted_concat {number? : Event → Option Nat} {w next : UInt32}
    (h : Counted o (past.filterMap number?) w)
    (taken : number? event = none ∧ next = w ∨
      number? event = some w.toNat ∧ o.succ w = some next) :
    Counted o ((past ++ [event]).filterMap number?) next := by
  rw [List.filterMap_append]
  rcases taken with ⟨none, rfl⟩ | ⟨given, counted⟩
  · simpa [none] using h
  · simpa [given] using h.take counted

/-- An emitter is what its transcript tells after one more request. -/
theorem step (h : Recorded o past e) {r : Request} {answer : Except Stop Answer}
    (served : Served o e r answer e') : Recorded o (past ++ [⟨r, answer⟩]) e' := by
  have temps : Counted o ((past ++ [Event.mk r answer]).filterMap Event.temp?) e'.temps := by
    refine counted_concat h.temps ?_
    cases served with
    | freshTemp counted | write _ _ counted => exact .inr ⟨rfl, counted⟩
    | _ => exact .inl ⟨rfl, rfl⟩
  have labels : Counted o ((past ++ [Event.mk r answer]).filterMap Event.label?) e'.labels := by
    refine counted_concat h.labels ?_
    cases served with
    | freshLabel counted => exact .inr ⟨rfl, counted⟩
    | _ => exact .inl ⟨rfl, rfl⟩
  suffices (∀ piece, e'.current = some piece ↔ OpenPiece (past ++ [⟨r, answer⟩]) piece) ∧
      List.Forall₂ OpenPiece (beforeEnds [] (past ++ [⟨r, answer⟩])) e'.finished from
    ⟨temps, labels, this.1, this.2⟩
  cases served with
  | freshTemp | freshLabel | entry | resetOffset | nextOffset | refused | noTemp | noLabel |
    noOffset =>
    exact h.pieces rfl rfl (by simp [Event.emitted?, Request.write?, Request.instr?]) rfl
  | write asks current =>
    obtain ⟨opens, ends⟩ := Event.of_asks (.inl (Option.isSome_of_eq_some asks)) _
    exact h.pieces opens ends (by simp [current, Event.emitted?, asks]) rfl
  | instr asks current =>
    obtain ⟨opens, ends⟩ := Event.of_asks (.inr (Option.isSome_of_eq_some asks)) _
    exact h.pieces opens ends (by simp [current, Event.emitted?, asks]) rfl
  | start =>
    refine ⟨fun piece => ?_, ?_⟩
    · rw [OpenPiece.concat_start, Option.some_inj, eq_comm]
    · simpa [beforeEnds_concat, Event.ends] using h.finished
  | finish current =>
    rw [beforeEnds_concat]
    refine ⟨fun piece => ⟨nofun, fun opened => ?_⟩, ?_⟩
    · exact absurd opened (OpenPiece.not_concat_ends rfl)
    · exact List.rel_append h.finished (.cons ((h.current _).1 current) .nil)

/-- So it is after any requests. -/
theorem serveAll (h : Recorded o past e) (rs : List Request) :
    Recorded o (past ++ (e.serveAll o rs).1) (e.serveAll o rs).2 := by
  induction rs generalizing past e with
  | nil => simpa [Emitter.serveAll] using h
  | cons r rest ih => simpa [Emitter.serveAll] using ih (h.step (e.served o r))

end Recorded
end

namespace Emitter

variable {o : Overflow}

theorem serveAll_append (e : Emitter) (rs rs' : List Request) :
    e.serveAll o (rs ++ rs') = ((e.serveAll o rs).1 ++ ((e.serveAll o rs).2.serveAll o rs').1,
      ((e.serveAll o rs).2.serveAll o rs').2) := by
  induction rs generalizing e with
  | nil => rfl
  | cons r rest ih => simp only [List.cons_append, serveAll, ih]

/-- A transcript lists the requests that were made. -/
theorem map_request_serveAll (o : Overflow) (e : Emitter) (rs : List Request) :
    (e.serveAll o rs).1.map Event.request = rs := by
  induction rs generalizing e with
  | nil => rfl
  | cons r rest ih => simp [serveAll, ih]

/-- A part of a transcript is the transcript of the requests in it. -/
theorem serveAll_of_split {e : Emitter} {rs : List Request} {before later : List Event}
    {event : Event} (split : (e.serveAll o rs).1 = before ++ event :: later) :
    (e.serveAll o (before.map Event.request)).1 = before ∧
      ((e.serveAll o (before.map Event.request)).2.serve o event.request).1 = event.answer := by
  -- the requests decide the answers, so those in front have the transcript in front
  have requests := map_request_serveAll o e rs
  rw [split, List.map_append, List.map_cons] at requests
  rw [← requests, serveAll_append, serveAll] at split
  obtain ⟨same, rest⟩ := List.append_inj split (by
    simpa using congrArg List.length (map_request_serveAll o e (before.map Event.request)))
  exact ⟨same, congrArg Event.answer (List.cons.inj rest).1⟩

end Emitter

/-- Why a request behind `before` gets no answer of an emitter in the state `e`. -/
inductive Refused (o : Overflow) (before : List Event) (e : Emitter) (r : Request) : Stop → Prop
  /-- No function is open. -/
  | closed : (∀ piece, ¬OpenPiece before piece) → Refused o before e r Emit.noOpenFunction
  /-- There is no word for what comes behind the next temporary. -/
  | temps : o = .stops → r.takesTemp →
      (before.filterMap Event.temp?).length + 1 = UInt32.size → Refused o before e r .overflow
  /-- There is no word for what comes behind the next label. -/
  | labels : o = .stops → r = .freshLabel →
      (before.filterMap Event.label?).length + 1 = UInt32.size → Refused o before e r .overflow
  /-- There is no word for the place behind the next parameter. -/
  | offset {size : Int32} : o = .stops → r = .nextOffset size →
      ¬Signed (e.paramOffset.toInt + size.toInt) → Refused o before e r .overflow

theorem Recorded.refused {o : Overflow} {before : List Event} {e e' : Emitter} {r : Request}
    {stop : Stop} (h : Recorded o before e) (served : Served o e r (.error stop) e') :
    Refused o before e r stop := by
  cases served with
  | refused closed =>
    refine .closed fun piece opened => ?_
    rw [(h.current piece).2 opened] at closed
    cases closed
  | noTemp takes spent =>
    obtain ⟨stops, length⟩ := h.temps.length_of_overflow spent
    exact .temps stops takes length
  | noLabel spent =>
    obtain ⟨stops, length⟩ := h.labels.length_of_overflow spent
    exact .labels stops rfl length
  | noOffset spent =>
    obtain ⟨stops, big⟩ := Overflow.add_eq_none_iff.1 spent
    exact .offset stops rfl big

/-- What is asked for outside of any function takes no temporary, and a function that is opened over
another one drops it. -/
example (o : Overflow) (f g : FunctionInfo) :
    let told := Emitter.serveAll o {}
      [.load 5, .start f [], .load 6, .start g [3], .freshTemp, .load 7, .finish, .finish]
    told.1.filterMap Event.temp? = [0, 1, 2] ∧
      told.2.code.pieces = [⟨g.entryName, g.offset, [3], [.load 2 7]⟩] := by
  cases o <;> exact ⟨rfl, rfl⟩

end MiddleEnd.Fixed
