import Mathlib.Data.List.Basic
import Mathlib.Data.Option.Basic
import Mathlib.Tactic.Cases

/-! Programs that send and receive over a stream socket. A program asks for whole pieces of
data; the calls of the socket transfer parts of them, and may fail. Nothing here is about a
particular protocol. -/

namespace Dialogues

variable {β α γ : Type}

/-- A failed transfer is `false` and `none`. -/
inductive Dialogue (β α : Type)
  | done (result : α)
  | send (data : List β) (next : Bool → Dialogue β α)
  | receive (size : Nat) (next : Option (List β) → Dialogue β α)

/-- What a call returns: how much `send` took, what arrived in one piece, or a failure. -/
inductive Answer (β : Type)
  | took (n : Nat)
  | arrived (data : List β)
  | failed

namespace Answer

def incoming : Answer β → List β
  | .arrived data => data
  | _ => []

def succeeds : Answer β → Bool
  | .failed => false
  | _ => true

end Answer

namespace Dialogue

protected def bind (f : α → Dialogue β γ) : Dialogue β α → Dialogue β γ
  | .done result => f result
  | .send data next => .send data fun ok => (next ok).bind f
  | .receive size next => .receive size fun data => (next data).bind f

/-- One call: the rest of the program, and what the call put on the stream. -/
def call : Dialogue β α → Answer β → Option (Dialogue β α × List β)
  | .send data next, .took n =>
    if n < data.length then some (.send (data.drop n) next, data.take n)
    else if n = data.length then some (next true, data)
    else none
  | .send _ next, .failed => some (next false, [])
  | .receive size next, .arrived data =>
    if data.length < size then some (.receive (size - data.length) fun more => next (more.map (data ++ ·)), [])
    else if data.length = size then some (next (some data), [])
    else none
  | .receive _ next, .failed => some (next none, [])
  | _, _ => none

/-- Some calls, one behind the other, with all that they put on the stream. -/
inductive Calls (d : Dialogue β α) : List (Answer β) → Dialogue β α → List β → Prop
  | start : Calls d [] d []
  | snoc {answers : List (Answer β)} {d₁ d₂ : Dialogue β α} {sent out : List β} {a : Answer β} :
      Calls d answers d₁ sent → d₁.call a = some (d₂, out) → Calls d (answers ++ [a]) d₂ (sent ++ out)

/-- The result once all the calls are made, if the program is through then. -/
def finish : Dialogue β α → List (Answer β) → Option (α × List β)
  | .done result, [] => some (result, [])
  | _, [] => none
  | d, a :: answers => (d.call a).bind fun r => (r.1.finish answers).map fun q => (q.1, r.2 ++ q.2)

/-- A program that is through, over a stream from the other side. -/
structure Talked (β α : Type) where
  result : α
  sent : List β
  rest : List β

def Talked.after (sent : List β) (t : Talked β α) : Talked β α := { t with sent := sent ++ t.sent }

/-- The program over all that the other side sends, when no call fails; `none` waits for more. -/
def talk : Dialogue β α → List β → Option (Talked β α)
  | .done result, stream => some ⟨result, [], stream⟩
  | .send data next, stream => (talk (next true) stream).map (.after data)
  | .receive size next, stream =>
    if stream.length < size then none else talk (next (some (stream.take size))) (stream.drop size)

/-- Whatever the calls return, the result is of this kind. -/
def Ends (P : α → Prop) : Dialogue β α → Prop
  | .done result => P result
  | .send _ next => ∀ ok, Ends P (next ok)
  | .receive _ next => ∀ data, Ends P (next data)

/-- The program sends nothing more and comes to no success. -/
def Silent (success : α → Prop) : Dialogue β α → Prop
  | .done result => ¬ success result
  | .send _ _ => False
  | .receive _ next => ∀ data, Silent success (next data)

/-- Whatever the calls return, what is sent is the start of a message, and all of it for a
success. -/
def Says (success : α → Prop) : Dialogue β α → List β → Prop
  | .done result, message => success result → message = []
  | .send data next, message =>
    (∃ rest, message = data ++ rest ∧ Says success (next true) rest) ∧ Silent success (next false)
  | .receive _ next, message => ∀ data, Says success (next data) message

variable {d d₁ d₂ : Dialogue β α} {a : Answer β} {answers : List (Answer β)} {sent out stream message : List β}

@[simp] theorem Talked.after_nil (t : Talked β α) : t.after [] = t := rfl

@[simp] theorem Talked.after_after (sent out : List β) (t : Talked β α) :
    (t.after out).after sent = t.after (sent ++ out) := by
  simp [Talked.after]

theorem talk_bind (f : α → Dialogue β γ) : (d.bind f).talk stream =
    (d.talk stream).bind fun t => ((f t.result).talk t.rest).map (.after t.sent) := by
  induction d generalizing stream with
  | done result =>
    cases h : (f result).talk stream <;> simp [Dialogue.bind, talk, h]
  | send data next ih =>
    simp only [Dialogue.bind, talk, ih, Option.map_bind, Option.bind_map]
    congr 1
    funext t
    simp only [Function.comp_def, Option.map_map, Talked.after_after]
    rfl
  | receive size next ih =>
    by_cases hshort : stream.length < size
    · simp [Dialogue.bind, talk, hshort]
    · simp [Dialogue.bind, talk, hshort, ih]

/-- A call that does not fail takes its part off the stream. -/
theorem talk_call (hc : d.call a = some (d₁, out)) (ha : a.succeeds = true) :
    d.talk (a.incoming ++ stream) = (d₁.talk stream).map (.after out) := by
  cases d with
  | done result => simp [call] at hc
  | send data next =>
    cases a with
    | took n =>
      simp only [call] at hc
      split_ifs at hc with hlt heq
      · obtain ⟨rfl, rfl⟩ := Prod.mk.inj (Option.some.inj hc)
        simp only [talk, Answer.incoming, List.nil_append, Option.map_map, Function.comp_def, Talked.after_after,
          List.take_append_drop]
      · obtain ⟨rfl, rfl⟩ := Prod.mk.inj (Option.some.inj hc)
        simp [talk, Answer.incoming]
    | arrived data => simp [call] at hc
    | failed => cases ha
  | receive size next =>
    cases a with
    | took n => simp [call] at hc
    | arrived data =>
      simp only [call] at hc
      split_ifs at hc with hlt heq
      · obtain ⟨rfl, rfl⟩ := Prod.mk.inj (Option.some.inj hc)
        have hroom : (data ++ stream).length < size ↔ stream.length < size - data.length := by
          rw [List.length_append]
          omega
        have hle : data.length ≤ size := by omega
        by_cases hshort : stream.length < size - data.length
        · simp only [talk, Answer.incoming, hroom, hshort, if_true, Option.map_none]
        · simp only [talk, Answer.incoming, hroom, hshort, if_false, Option.map_some, List.take_append,
            List.drop_append, List.take_of_length_le hle, List.drop_of_length_le hle, List.nil_append]
          cases h : (next (some (data ++ List.take (size - data.length) stream))).talk
            (List.drop (size - data.length) stream) <;> simp
      · obtain ⟨rfl, rfl⟩ := Prod.mk.inj (Option.some.inj hc)
        subst heq
        have hroom : ¬ (data ++ stream).length < data.length := by simp
        simp only [talk, Answer.incoming, hroom, if_false, List.take_left, List.drop_left]
        cases h : (next (some data)).talk stream <;> simp
    | failed => cases ha

/-- Calls that do not fail make of a program what the stream makes of it, in whatever pieces
it arrives and is taken. -/
theorem Calls.talk (hc : Calls d answers d₁ sent) (ha : ∀ a ∈ answers, a.succeeds = true) :
    d.talk ((answers.flatMap Answer.incoming) ++ stream) = (d₁.talk stream).map (.after sent) := by
  induction hc generalizing stream with
  | start => cases h : d.talk stream <;> simp [h]
  | @snoc answers d₁ d₂ sent out a _ hcall ih =>
    have hfirst := fun b hb => ha b (List.mem_append_left _ hb)
    rw [List.flatMap_append, List.append_assoc, ih hfirst]
    have hlast : d₁.talk (a.incoming ++ stream) = (d₂.talk stream).map (.after out) := talk_call hcall (ha a (by simp))
    simp only [List.flatMap_cons, List.flatMap_nil, List.append_nil, hlast, Option.map_map, Function.comp_def,
      Talked.after_after]

theorem Calls.single (h : d.call a = some (d₁, out)) : Calls d [a] d₁ out := Calls.start.snoc h

theorem Calls.trans {answers' : List (Answer β)} {sent' : List β} (h : Calls d answers d₁ sent)
    (h' : Calls d₁ answers' d₂ sent') : Calls d (answers ++ answers') d₂ (sent ++ sent') := by
  induction h' with
  | start => simpa using h
  | snoc _ hcall ih => simpa only [List.append_assoc] using ih.snoc hcall

theorem calls_of_finish {result : α} (h : d.finish answers = some (result, sent)) :
    Calls d answers (.done result) sent := by
  induction answers generalizing d sent with
  | nil =>
    cases d with
    | done r =>
      obtain ⟨rfl, rfl⟩ := Prod.mk.inj (Option.some.inj h)
      exact .start
    | send data next => cases h
    | receive size next => cases h
  | cons a answers ih =>
    simp only [finish, Option.bind_eq_some_iff, Option.map_eq_some_iff] at h
    obtain ⟨⟨d₁, out⟩, hcall, ⟨q, more⟩, hrest, heq⟩ := h
    obtain ⟨rfl, rfl⟩ := Prod.mk.inj heq
    exact (Calls.single hcall).trans (ih hrest)

/-- A program that is through after calls that do not fail has read what has arrived. -/
theorem Calls.talk_done {result : α} (hc : Calls d answers (.done result) sent)
    (ha : ∀ a ∈ answers, a.succeeds = true) : d.talk (answers.flatMap Answer.incoming) = some ⟨result, sent, []⟩ := by
  have h : d.talk (answers.flatMap Answer.incoming ++ []) = _ := hc.talk ha
  rw [List.append_nil] at h
  simpa [Dialogue.talk, Talked.after] using h

theorem Silent.anyMessage {success : α → Prop} (hs : Silent success d) (message : List β) : Says success d message := by
  induction d with
  | done result => exact fun h => absurd h hs
  | send data next => exact absurd hs id
  | receive size next ih => exact fun data => ih data (hs data)

theorem Silent.bind {success : α → Prop} {success' : γ → Prop} {f : α → Dialogue β γ} (hs : Silent success d)
    (hf : ∀ result, ¬ success result → Silent success' (f result)) : Silent success' (d.bind f) := by
  induction d with
  | done result => exact hf result hs
  | send data next => exact absurd hs id
  | receive size next ih => exact fun data => ih data (hs data)

/-- The messages of two programs, one behind the other; the second one speaks only after a
success of the first one. -/
theorem Says.bind {success : α → Prop} {success' : γ → Prop} {f : α → Dialogue β γ} {more : List β}
    (hs : Says success d message) (hf : ∀ result, success result → Says success' (f result) more)
    (hf' : ∀ result, ¬ success result → Silent success' (f result)) :
    Says success' (d.bind f) (message ++ more) := by
  induction d generalizing message with
  | done result =>
    by_cases h : success result
    · rw [hs h, List.nil_append]
      exact hf result h
    · exact (hf' result h).anyMessage _
  | send data next ih =>
    obtain ⟨⟨rest, rfl, htrue⟩, hfalse⟩ := hs
    exact ⟨⟨rest ++ more, List.append_assoc .., ih true htrue⟩, hfalse.bind hf'⟩
  | receive size next ih => exact fun data => ih data (hs data)

theorem Says.call {success : α → Prop} (hs : Says success d message) (hc : d.call a = some (d₁, out)) :
    ∃ rest, message = out ++ rest ∧ Says success d₁ rest := by
  cases d with
  | done result => simp [Dialogue.call] at hc
  | send data next =>
    obtain ⟨⟨rest, rfl, htrue⟩, hfalse⟩ := hs
    cases a with
    | took n =>
      simp only [Dialogue.call] at hc
      split_ifs at hc with hlt heq
      · obtain ⟨rfl, rfl⟩ := Prod.mk.inj (Option.some.inj hc)
        exact ⟨data.drop n ++ rest, by simp [← List.append_assoc], ⟨rest, rfl, htrue⟩, hfalse⟩
      · obtain ⟨rfl, rfl⟩ := Prod.mk.inj (Option.some.inj hc)
        exact ⟨rest, rfl, htrue⟩
    | arrived data => simp [Dialogue.call] at hc
    | failed =>
      obtain ⟨rfl, rfl⟩ := Prod.mk.inj (Option.some.inj hc)
      exact ⟨data ++ rest, rfl, hfalse.anyMessage _⟩
  | receive size next =>
    cases a with
    | took n => simp [Dialogue.call] at hc
    | arrived data =>
      simp only [Dialogue.call] at hc
      split_ifs at hc with hlt heq
      · obtain ⟨rfl, rfl⟩ := Prod.mk.inj (Option.some.inj hc)
        exact ⟨message, rfl, fun more => hs _⟩
      · obtain ⟨rfl, rfl⟩ := Prod.mk.inj (Option.some.inj hc)
        exact ⟨message, rfl, hs _⟩
    | failed =>
      obtain ⟨rfl, rfl⟩ := Prod.mk.inj (Option.some.inj hc)
      exact ⟨message, rfl, hs _⟩

theorem Says.calls {success : α → Prop} (hs : Says success d message) (hc : Calls d answers d₁ sent) :
    ∃ rest, message = sent ++ rest ∧ Says success d₁ rest := by
  induction hc with
  | start => exact ⟨message, rfl, hs⟩
  | snoc _ hcall ih =>
    obtain ⟨rest, rfl, hrest⟩ := ih
    obtain ⟨more, rfl, hmore⟩ := hrest.call hcall
    exact ⟨more, (List.append_assoc ..).symm, hmore⟩

theorem Ends.call {P : α → Prop} (he : Ends P d) (hc : d.call a = some (d₁, out)) : Ends P d₁ := by
  cases d with
  | done result => simp [Dialogue.call] at hc
  | send data next =>
    cases a with
    | took n =>
      simp only [Dialogue.call] at hc
      split_ifs at hc
      · obtain ⟨rfl, rfl⟩ := Prod.mk.inj (Option.some.inj hc)
        exact he
      · obtain ⟨rfl, rfl⟩ := Prod.mk.inj (Option.some.inj hc)
        exact he true
    | arrived data => simp [Dialogue.call] at hc
    | failed =>
      obtain ⟨rfl, rfl⟩ := Prod.mk.inj (Option.some.inj hc)
      exact he false
  | receive size next =>
    cases a with
    | took n => simp [Dialogue.call] at hc
    | arrived data =>
      simp only [Dialogue.call] at hc
      split_ifs at hc
      · obtain ⟨rfl, rfl⟩ := Prod.mk.inj (Option.some.inj hc)
        exact fun more => he _
      · obtain ⟨rfl, rfl⟩ := Prod.mk.inj (Option.some.inj hc)
        exact he _
    | failed =>
      obtain ⟨rfl, rfl⟩ := Prod.mk.inj (Option.some.inj hc)
      exact he none

theorem Ends.bind {P : γ → Prop} {f : α → Dialogue β γ} (h : ∀ result, Ends P (f result)) (d : Dialogue β α) :
    Ends P (d.bind f) := by
  induction d with
  | done result => exact h result
  | send data next ih => exact ih
  | receive size next ih => exact ih

end Dialogue

end Dialogues
