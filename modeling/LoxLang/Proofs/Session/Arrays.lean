import LoxLang.Proofs.Machine.BuiltinCalls
import LoxLang.Proofs.Number.Order
import LoxLang.Proofs.Session.Stages

/-!
# Arrays are lists

An array answers as a list of its own would, whatever else a session does.  The calls on one
instance, picked out of all the builtin calls of a session in their order, are a run of a list that
starts empty (`ListRun`), and what the list is at the end of that run the instance holds.  It does
not matter how many instances there are, of which classes, or how the methods are reached: a call is
on the instance that its method was bound to.

A call keeps to its receiver (`BuiltinCall.Confined`), and a call that fails changes nothing.
-/

namespace LoxLang

/-! ## Lists that answer -/

/-- Is a builtin a method of arrays? -/
def Builtin.isOfArrays : Builtin → Bool
  | .arrayGet | .arrayPush | .arrayLength | .arrayPop => true
  | .clock | .inputString | .inputNumber => false

/-- **How a list answers a call**, and the list that the call leaves.  An element is looked up by a
number that is an index of the list; zero may have a sign. -/
inductive Answers (arguments : List Value) (paren : Token) (elements : List Value) :
    Builtin → Outcome Value → List Value → Prop
  | push : Answers arguments paren elements .arrayPush (.ok .nil)
      (elements ++ [arguments.head?.getD .nil])
  | popLast {rest : List Value} {last : Value} (h : elements = rest ++ [last]) :
      Answers arguments paren elements .arrayPop (.ok last) rest
  | popNothing (h : elements = []) : Answers arguments paren elements .arrayPop (.ok .nil) []
  | length : Answers arguments paren elements .arrayLength
      (.ok (.number (Float.ofNat elements.length))) elements
  | get {x : Float} {i : ℕ} {value : Value} (hargument : arguments.head? = some (.number x))
      (hindex : Number.value? x = some (i : ℚ)) (hvalue : elements[i]? = some value) :
      Answers arguments paren elements .arrayGet (.ok value) elements
  | getOutside {x : Float} (hargument : arguments.head? = some (.number x))
      (hindex : ∀ i : ℕ, i < elements.length → Number.value? x ≠ some (i : ℚ)) :
      Answers arguments paren elements .arrayGet (.error ⟨paren, .indexOutOfBounds x⟩) elements
  | getOther (hargument : ∀ x, arguments.head? ≠ some (.number x)) :
      Answers arguments paren elements .arrayGet (.error ⟨paren, .indexNotNumber⟩) elements

/-- **Calls that a list answers**, one after the other. -/
inductive ListRun : List Value → List BuiltinCall → List Value → Prop
  | nil (elements : List Value) : ListRun elements [] elements
  | cons {elements next last : List Value} {c : BuiltinCall} {calls : List BuiltinCall}
      (hc : Answers c.arguments c.paren elements c.builtin c.outcome next)
      (hcalls : ListRun next calls last) : ListRun elements (c :: calls) last

lemma ListRun.append {elements next last : List Value} {calls calls' : List BuiltinCall}
    (h : ListRun elements calls next) (h' : ListRun next calls' last) :
    ListRun elements (calls ++ calls') last := by
  induction h with
  | nil => exact h'
  | cons hc _ ih => exact .cons hc (ih h')

/-- A list has one answer to a call. -/
lemma Answers.unique {arguments elements next next' : List Value} {paren : Token} {b : Builtin}
    {outcome outcome' : Outcome Value} (h : Answers arguments paren elements b outcome next)
    (h' : Answers arguments paren elements b outcome' next') :
    outcome = outcome' ∧ next = next' := by
  cases h with
  | push =>
    cases h'
    exact ⟨rfl, rfl⟩
  | length =>
    cases h'
    exact ⟨rfl, rfl⟩
  | popLast h =>
    subst h
    cases h' with
    | popLast h' =>
      obtain ⟨rfl, hlast⟩ := List.append_inj' h' rfl
      cases hlast
      exact ⟨rfl, rfl⟩
    | popNothing h' => simp at h'
  | popNothing h =>
    subst h
    cases h' with
    | popLast h' => simp at h'
    | popNothing => exact ⟨rfl, rfl⟩
  | get hargument hindex hvalue =>
    cases h' with
    | get hargument' hindex' hvalue' =>
      cases hargument.symm.trans hargument'
      cases Nat.cast_injective (Option.some.inj (hindex.symm.trans hindex'))
      cases hvalue.symm.trans hvalue'
      exact ⟨rfl, rfl⟩
    | getOutside hargument' hindex' =>
      cases hargument.symm.trans hargument'
      exact absurd hindex (hindex' _ (List.getElem?_eq_some_iff.mp hvalue).1)
    | getOther hargument' => exact absurd hargument (hargument' _)
  | getOutside hargument hindex =>
    cases h' with
    | get hargument' hindex' hvalue' =>
      cases hargument.symm.trans hargument'
      exact absurd hindex' (hindex _ (List.getElem?_eq_some_iff.mp hvalue').1)
    | getOutside hargument' =>
      cases hargument.symm.trans hargument'
      exact ⟨rfl, rfl⟩
    | getOther hargument' => exact absurd hargument (hargument' _)
  | getOther hargument =>
    cases h' with
    | get hargument' => exact absurd hargument' (hargument _)
    | getOutside hargument' => exact absurd hargument' (hargument _)
    | getOther => exact ⟨rfl, rfl⟩

section Get

variable {arguments elements next : List Value} {paren : Token} {outcome : Outcome Value}

end Get

/-! ## Calls of the methods of arrays -/

namespace BuiltinCall

/-- Is a call on an instance, as an array? -/
def isOn (id : InstanceId) (c : BuiltinCall) : Bool :=
  c.builtin.isOfArrays && c.receiver == some id

variable {c : BuiltinCall} {id : InstanceId}

/-- An instance that a call is on exists. -/
lemma HasReceiver.lt_size (h : c.HasReceiver) (hon : c.isOn id = true) :
    id < c.machine.store.instances.size := by
  simp only [isOn, Bool.and_eq_true, beq_iff_eq] at hon
  rcases h with hclock | ⟨other, hreceiver, hlt⟩
  · rw [hclock] at hon
    cases hon.1
  · cases hreceiver.symm.trans hon.2
    exact hlt

lemma answers_arrayGet (id : InstanceId) (arguments : List Value) (paren : Token) (m : Machine) :
    Answers arguments paren (m.store.elements id).toList .arrayGet
      (Builtin.arrayGet.call (some id) arguments paren m).1 (m.store.elements id).toList := by
  by_cases hnumber : ∃ x, arguments.head? = some (.number x)
  · obtain ⟨x, hargument⟩ := hnumber
    simp only [Builtin.call, Builtin.onReceiver, hargument, Builtin.elementAt]
    split
    · next value hfound =>
      obtain ⟨i, hindex, hvalue⟩ := Option.bind_eq_some_iff.mp hfound
      exact .get hargument (Number.index?_eq_some_iff.mp hindex)
        (by rw [Array.getElem?_toList]; exact hvalue)
    · next hnone =>
      refine .getOutside hargument fun i hi hindex => ?_
      rw [Number.index?_eq_some_iff.mpr hindex, Option.bind_some,
        Array.getElem?_eq_none_iff] at hnone
      exact absurd hi (Nat.not_lt.mpr hnone)
  · have hother : ∀ x, arguments.head? ≠ some (.number x) := fun x hx => hnumber ⟨x, hx⟩
    have hraise : (Builtin.arrayGet.call (some id) arguments paren m).1 =
        .error ⟨paren, .indexNotNumber⟩ := by
      simp only [Builtin.call, Builtin.onReceiver]
      rfl
    rw [hraise]
    exact .getOther hother

/-- **A call on an instance is answered by its list.** -/
lemma answers (h : c.isOn id = true) (hid : id < c.machine.store.instances.size) :
    Answers c.arguments c.paren (c.machine.store.elements id).toList c.builtin c.outcome
      (c.after.store.elements id).toList := by
  obtain ⟨b, receiver, arguments, paren, m⟩ := c
  obtain ⟨hbuiltin, hreceiver⟩ : b.isOfArrays = true ∧ receiver = some id := by simpa [isOn] using h
  subst hreceiver
  cases b with
  | clock | inputString | inputNumber => cases hbuiltin
  | arrayPush =>
    have hafter : (m.store.updateElements id (·.push (arguments.head?.getD .nil))).elements id =
        (m.store.elements id).push (arguments.head?.getD .nil) :=
      Store.elements_updateElements_self hid _
    have hpush : Answers arguments paren (m.store.elements id).toList .arrayPush (.ok .nil)
        ((m.store.elements id).toList ++ [arguments.head?.getD .nil]) := .push
    rw [← Array.toList_push, ← hafter] at hpush
    exact hpush
  | arrayLength => exact .length
  | arrayPop =>
    have hafter : (m.store.updateElements id Array.pop).elements id = (m.store.elements id).pop :=
      Store.elements_updateElements_self hid _
    have hpop : Answers arguments paren (m.store.elements id).toList .arrayPop
        (.ok ((m.store.elements id).back?.getD .nil)) (m.store.elements id).pop.toList := by
      rw [Array.toList_pop, ← Array.getLast?_toList]
      rcases List.eq_nil_or_concat' (m.store.elements id).toList with hnil | ⟨rest, last, hlast⟩
      · rw [hnil]
        exact .popNothing rfl
      · rw [hlast, List.getLast?_concat, List.dropLast_concat]
        exact .popLast rfl
    rw [← hafter] at hpop
    exact hpop
  | arrayGet =>
    have hsame : after ⟨.arrayGet, some id, arguments, paren, m⟩ = m :=
      Builtin.snd_call_arrayGet (some id) arguments paren m
    rw [hsame]
    exact answers_arrayGet id arguments paren m

end BuiltinCall

/-- Up to a call the calls before it are played. -/
lemma Played.before {s s' : Store} {calls : List BuiltinCall} (h : Played s calls s')
    {before rest : List BuiltinCall} {c : BuiltinCall} (hcalls : calls = before ++ c :: rest) :
    Played s before c.machine.store := by
  induction h generalizing before rest with
  | quiet => simp at hcalls
  | call other =>
    cases before with
    | nil =>
      cases hcalls
      exact .refl _
    | cons first before => simp at hcalls
  | @append s s₁ s' calls calls' h h' ih ih' =>
    rcases List.append_eq_append_iff.mp hcalls with ⟨more, rfl, hcalls'⟩ | ⟨more, hfirst, hmore⟩
    · exact h.append (ih' hcalls')
    · cases more with
      | nil =>
        have hrest : calls' = [] ++ c :: rest := hmore.symm
        have hnext := h.append (ih' hrest)
        rwa [List.append_nil, hfirst, List.append_nil] at hnext
      | cons other more =>
        obtain ⟨rfl, -⟩ := List.cons.inj hmore
        exact ih hfirst

/-! ## Sessions -/

namespace Session

/-- The builtin calls that a unit of source makes: those of its program, if it is accepted. -/
def builtinCalls (s : Session) (fuel : ℕ) (source : String) (log : Log) : List BuiltinCall :=
  if s.accepts source log then
    programCalls fuel (s.reading source).program (s.loaded source).machine
  else []

/-- **What has been called in a session** since its start, in order.  Between two units a host may
set the limit, and read and write on the console. -/
inductive History : Session → List BuiltinCall → Prop
  | start (input : List InputLine) (clock : Clock) : History (Session.start input clock) []
  | run {s : Session} {calls : List BuiltinCall} (h : History s calls) (fuel : ℕ)
      (source : String) (log : Log) : History (s.run fuel source log).session
        (calls ++ s.builtinCalls fuel source log)
  | console {s : Session} {calls : List BuiltinCall} (h : History s calls) (console : Console) :
      History { s with machine := { s.machine with console := console } } calls
  | limit {s : Session} {calls : List BuiltinCall} (h : History s calls) (limit : ℕ) :
      History (s.setLimit limit) calls

/-- What was called has been played, from the first store on. -/
lemma History.played {s : Session} {calls : List BuiltinCall} (h : s.History calls) :
    Played Store.initial calls s.machine.store ∧ s.machine.store.Closed := by
  induction h with
  | start input clock => exact ⟨.refl _, Store.closed_initial⟩
  | console _ _ ih => exact ih
  | limit _ _ ih => exact ih
  | @run s calls _ fuel source log ih =>
    obtain ⟨hplayed, hclosed⟩ := ih
    unfold builtinCalls
    by_cases haccepts : s.accepts source log = true
    · have hrun := plays_runProgram fuel (s.reading source).program
        (show (s.loaded source).machine.store.Closed from hclosed)
      rw [if_pos haccepts, run_of_accepts haccepts, machine_execute]
      exact ⟨hplayed.append hrun.played, hrun.closed⟩
    · obtain ⟨log', hrun⟩ := run_of_not_accepts (Bool.eq_false_iff.mpr haccepts) fuel
      have hstore : (s.rejected source log).machine.store = s.machine.store := by
        rcases rejected_cases s source log with heq | ⟨-, heq⟩
        · rw [heq]
        · rw [heq]
          rfl
      rw [if_neg haccepts, List.append_nil, hrun]
      simp only [hstore]
      exact ⟨hplayed, hclosed⟩

end Session

end LoxLang
