/-
**The order of effects.**

An act that fails leaves the machine as it is at that moment.  So an act changes nothing when it
fails if it asks for all that it needs before its first change, and cannot fail afterwards.  Here it
is shown that every instruction is written in that order, and so is a whole line.

Such an act comes to the same as a dialogue that either fails or ends in a machine with a value:
nothing is lost if the changes are left to the end.

Main definitions:

* `Act.Sure` — an act that only changes the machine, and so cannot fail;
* `Act.Careful` — an act that does not ask any more once it has changed the machine;
* `Act.dialogue` — all that an act asks, and the machine and the value in the end.

Main results:

* `Act.execute_careful`, `Act.line_careful` — **every instruction, and every line, is careful**;
* `Act.Careful.carryOut_eq` — a careful act is carried out as its dialogue, at any host;
* `Act.Careful.unchanged` — **a careful act that fails leaves the machine as it was**;
* `Act.carryOut_update_fail` — another one does not.
-/

import AccMachine.Machine.Execute
import AccMachine.Session

set_option relaxedAutoImplicit false
set_option autoImplicit false

namespace AccMachine

variable {α β : Type}

/-! ### Dialogues at a host -/

section Holding

variable {M : Type → Type} [Monad M]

/-- Two ways to go on after a service are the same if they are so after a refusal and after every
answer. -/
theorem Host.bind_answer_congr {γ : Type} {service : M (Except DeviceFault γ)}
    {f g : Except DeviceFault γ → M (Except Cause β)}
    (hrefused : ∀ fault, f (.error fault) = g (.error fault))
    (hanswered : ∀ answer, f (.ok answer) = g (.ok answer)) : service >>= f = service >>= g := by
  refine bind_congr fun answer => ?_
  cases answer with
  | error fault => exact hrefused fault
  | ok answer => exact hanswered answer

/-- A host holds dialogues one after another. -/
theorem Host.hold_bind [LawfulMonad M] [Host M] (d : Dialogue α) (k : α → Dialogue β) :
    (d.bind k).hold (M := M) =
      d.hold >>= fun result =>
        match result with
        | .error cause => pure (.error cause)
        | .ok a => (k a).hold := by
  induction d with
  | done a => simp only [Dialogue.bind, Dialogue.hold, pure_bind]
  | fail cause => simp only [Dialogue.bind, Dialogue.hold, pure_bind]
  | trace words accumulator next ih =>
      simp only [Dialogue.bind, Dialogue.hold, bind_assoc]
      exact bind_answer_congr (fun _ => by simp only [pure_bind]) fun _ => ih
  | emit output next ih =>
      simp only [Dialogue.bind, Dialogue.hold, bind_assoc]
      exact bind_answer_congr (fun _ => by simp only [pure_bind]) fun _ => ih
  | read next ih =>
      simp only [Dialogue.bind, Dialogue.hold, bind_assoc]
      exact bind_answer_congr (fun _ => by simp only [pure_bind]) ih
  | load reference next ih =>
      simp only [Dialogue.bind, Dialogue.hold, bind_assoc]
      exact bind_answer_congr (fun _ => by simp only [pure_bind]) ih
  | note event next ih => simp only [Dialogue.bind, Dialogue.hold, bind_assoc, ih]

end Holding

namespace Act

/-! ### Careful acts -/

/-- The act only changes the machine. -/
def Sure : Act α → Prop
  | done _ => True
  | consult _ _ => False
  | change _ next => next.Sure

/-- The act does not ask any more once it has changed the machine. -/
def Careful : Act α → Prop
  | done _ => True
  | consult _ next => ∀ answer, (next answer).Careful
  | change _ next => next.Sure

/-- All that an act asks, and the machine and the value in the end. -/
def dialogue : Act α → Machine → Dialogue (Machine × α)
  | done value, m => .done (m, value)
  | consult d next, m => (d m).bind fun answer => (next answer).dialogue m
  | change f next, m => next.dialogue (f m)

section Dialogue

variable {k : β → Act α} (m : Machine)

@[simp] theorem dialogue_pure (value : α) :
    (pure value : Act α).dialogue m = .done (m, value) := rfl

@[simp] theorem dialogue_fail (cause : Cause) : (fail cause : Act α).dialogue m = .fail cause := rfl

@[simp] theorem dialogue_ask_bind (d : Machine → Dialogue β) :
    (ask d >>= k).dialogue m = (d m).bind fun answer => (k answer).dialogue m := rfl

@[simp] theorem dialogue_hold_bind (d : Dialogue β) :
    (hold d >>= k).dialogue m = d.bind fun answer => (k answer).dialogue m := rfl

@[simp] theorem dialogue_look_bind (k : Machine → Act α) :
    (look >>= k).dialogue m = (k m).dialogue m := rfl

@[simp] theorem dialogue_update_bind (f : Machine → Machine) (k : Unit → Act α) :
    (update f >>= k).dialogue m = (k ()).dialogue (f m) := rfl

end Dialogue

section Carrying

variable {M : Type → Type} [Monad M] [Host M] {a : Act α}

/-- An act that only changes the machine comes to a value. -/
theorem Sure.ends (h : a.Sure) (m : Machine) :
    ∃ m' value, a.dialogue m = .done (m', value) ∧
      a.carryOut (M := M) m = pure (.ok value, m') := by
  induction a generalizing m with
  | done value => exact ⟨m, value, rfl, rfl⟩
  | consult d next _ => exact h.elim
  | change f next ih => exact ih h (f m)

/-- The result of an act and the machine that it leaves, from the result of its dialogue. -/
def outcome (m : Machine) : Except Cause (Machine × α) → Except Cause α × Machine
  | .error cause => (.error cause, m)
  | .ok (m', value) => (.ok value, m')

/-- **A careful act is carried out as its dialogue**, after which the machine changes. -/
theorem Careful.carryOut_eq [LawfulMonad M] (h : a.Careful) (m : Machine) :
    a.carryOut (M := M) m = outcome m <$> (a.dialogue m).hold := by
  induction a with
  | done value => simp only [carryOut, dialogue, Dialogue.hold, map_pure, outcome]
  | consult d next ih =>
      rw [carryOut, dialogue, Host.hold_bind, map_bind]
      refine bind_congr fun answer => ?_
      rcases answer with cause | answer
      · simp only [map_pure, outcome]
      · exact ih answer (h answer)
  | change f next ih =>
      -- The act cannot fail any more, so the machine before the change plays no part.
      obtain ⟨m', value, hdialogue, hcarried⟩ := Sure.ends (M := M) (a := next) h (f m)
      simp only [carryOut, dialogue, hdialogue, hcarried, Dialogue.hold, map_pure, outcome]

/-- Nothing is taken back: an act that changes the machine and fails then leaves the change. -/
theorem carryOut_update_fail [LawfulMonad M] (f : Machine → Machine) (cause : Cause) (m : Machine) :
    (update f >>= fun _ => fail cause : Act α).carryOut (M := M) m =
      pure (.error cause, f m) := by
  change (fail cause : Act α).carryOut (f m) = _
  rw [fail, hold, ask, carryOut, Dialogue.hold, pure_bind]

end Carrying

section Session

variable {κ : Type} [Console κ] {a : Act α} {m m' : Machine} {s s' : Session κ}

/-- A careful act in a session. -/
theorem Careful.carryOut_of_perform (h : a.Careful) {result : Except Cause (Machine × α)}
    (hp : s.perform (a.dialogue m) = (result, s')) :
    (a.carryOut m : StateM (Session κ) _).run s = (outcome m result, s') := by
  rw [h.carryOut_eq, StateT.run_map, Session.hold_run, hp]
  rfl

/-- **A careful act that fails leaves the machine as it was**, whatever the session has answered. -/
theorem Careful.unchanged (h : a.Careful) {cause : Cause}
    (hfailed : (a.carryOut m : StateM (Session κ) _).run s = ((.error cause, m'), s')) :
    m' = m := by
  rcases hp : s.perform (a.dialogue m) with ⟨_ | ⟨m₁, value⟩, s₁⟩ <;>
    rw [h.carryOut_of_perform hp] at hfailed <;> cases hfailed
  rfl

end Session

/-! ### The instructions -/

section Steps

variable {k : β → Act α}

theorem sure_pure (value : α) : (pure value : Act α).Sure := trivial

theorem careful_pure (value : α) : (pure value : Act α).Careful := trivial

theorem careful_fail (cause : Cause) : (fail cause : Act α).Careful := fun _ => trivial

theorem careful_ask_bind (d : Machine → Dialogue β) (h : ∀ answer, (k answer).Careful) :
    (ask d >>= k).Careful := h

theorem careful_hold_bind (d : Dialogue β) (h : ∀ answer, (k answer).Careful) :
    (hold d >>= k).Careful := h

theorem careful_look_bind {k : Machine → Act α} (h : ∀ m, (k m).Careful) :
    (look >>= k).Careful := h

theorem careful_update_bind (f : Machine → Machine) {k : Unit → Act α} (h : (k ()).Sure) :
    (update f >>= k).Careful := h

end Steps

theorem arithmetic_careful (op : Int64 → Int64 → Int64) (operand : String) :
    (arithmetic op operand).Careful :=
  careful_ask_bind _ fun _ => careful_update_bind _ (sure_pure _)

theorem division_careful (operand : String) : (division operand).Careful := by
  refine careful_ask_bind _ fun value => ?_
  split
  · exact careful_fail _
  · exact careful_update_bind _ (sure_pure _)

theorem bitwise_careful (op : Int64 → Int64 → Int64) (key : String) : (bitwise op key).Careful :=
  careful_update_bind _ (sure_pure _)

theorem jumpIf_careful (taken : Machine → Bool) (label : String) :
    (jumpIf taken label).Careful := by
  refine careful_ask_bind _ fun target? => careful_look_bind fun m => ?_
  split
  · cases target? with
    | none => exact careful_fail _
    | some target => exact careful_pure _
  · exact careful_pure _

theorem readNumber_careful : readNumber.Careful := by
  refine careful_hold_bind _ fun line? => ?_
  cases line? with
  | none => exact careful_fail _
  | some line =>
      dsimp only
      split
      · exact careful_update_bind _ (sure_pure _)
      · exact careful_fail _

theorem announce_careful (output : Machine → Output) : (announce output).Careful :=
  careful_ask_bind _ fun _ => careful_pure _

/-- The subroutine that was declared before is replaced only when the program has been loaded. -/
theorem declareSubroutine_careful (reference : String) : (declareSubroutine reference).Careful :=
  careful_hold_bind _ fun _ => careful_ask_bind _ fun _ => careful_update_bind _ (sure_pure _)

theorem callSubroutine_careful (name : String) : (callSubroutine name).Careful := by
  refine careful_look_bind fun m => ?_
  split
  · exact careful_fail _
  · exact careful_hold_bind _ fun _ => careful_pure _

theorem returnToCaller_careful : returnToCaller.Careful := by
  refine careful_look_bind fun m => ?_
  split
  · exact careful_update_bind _ (sure_pure _)
  · exact careful_fail _

/-- **Every instruction is careful.** -/
theorem execute_careful (mnemonic : Mnemonic) (operand : String) :
    (execute mnemonic operand).Careful := by
  unfold execute
  cases mnemonic with
  | load | store => exact careful_update_bind _ (sure_pure _)
  | add | subtract | multiply => exact arithmetic_careful _ operand
  | divide => exact division_careful operand
  | jump | jumpNegative | jumpZero => exact jumpIf_careful _ operand
  | xor | or | and | andNot => exact bitwise_careful _ operand
  | input => exact readNumber_careful
  | output | outputChar => exact announce_careful _
  | declare => exact declareSubroutine_careful operand
  | run => exact callSubroutine_careful operand
  | ret => exact returnToCaller_careful
  | halt => exact careful_pure _

theorem obey_careful (i : Instruction) : (obey i).Careful := by
  unfold obey
  split
  · exact execute_careful _ _
  · split
    · exact careful_fail _
    · exact execute_careful _ _

/-- **Every line is careful.** -/
theorem line_careful (text : String) : (line text).Careful := by
  refine careful_ask_bind _ fun _ => ?_
  unfold obeyWords
  split
  · exact careful_fail _
  · exact careful_pure _
  · exact careful_pure _
  · exact obey_careful _

end Act

end AccMachine
