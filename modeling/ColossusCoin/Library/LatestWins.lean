import Mathlib.Data.Finset.Basic

/-!
# Registers that keep the latest message

Messages carry keys, and the register of a key takes a message in the place of the one it
holds if the new one is newer, in the sense of some strict order.  What a register holds
after all of a finite set of messages is some message of the set that none is newer than,
the same one for all orders of arrival exactly when there is only one.
-/

namespace LatestWins

variable [DecidableEq Key]
variable (newer : Message → Message → Prop) [DecidableRel newer]
variable (key : Message → Option Key)

/-- Offer a message to a register. -/
def offer : Option Message → Message → Option Message
  | none, message => some message
  | some held, message => if newer held message then some message else some held

@[simp] theorem offer_none (message : Message) :
    offer newer none message = some message := rfl

@[simp] theorem offer_some (held message : Message) :
    offer newer (some held) message = if newer held message then some message else some held := rfl

/-- Deliver a message to the register of its key; a message without one is dropped. -/
def deliver (registers : Key → Option Message) (message : Message) :
    Key → Option Message :=
  match key message with
  | none => registers
  | some name => Function.update registers name (offer newer (registers name) message)

/-- A message that the register of a key can hold in the end: newer than what it held
first, and none of the others with the key is newer. -/
structure Final
    (registers : Key → Option Message) (messages : Finset Message) (name : Key)
    (message : Message) : Prop where
  mem : message ∈ messages
  keyed : key message = some name
  taken : ∀ held ∈ registers name, newer held message
  latest : ∀ other ∈ messages, key other = some name → ¬ newer message other

theorem foldl_deliver
    (registers : Key → Option Message) (messages : List Message) (name : Key) :
    messages.foldl (deliver newer key) registers name =
      (messages.filter fun message => key message = some name).foldl (offer newer)
        (registers name) := by
  induction messages generalizing registers with
  | nil => rfl
  | cons message rest ih =>
    rw [List.foldl_cons, ih, List.filter_cons]
    unfold deliver
    cases keyed : key message with
    | none => simp
    | some other =>
      by_cases same : other = name
      · simp [same]
      · simp [same, Function.update_of_ne (Ne.symm same)]

variable {newer} {key}

theorem foldl_offer_of_stale
    {messages : List Message}
    (stale : ∀ message ∈ messages, ¬ newer held message) :
    messages.foldl (offer newer) (some held) = some held := by
  induction messages with
  | nil => rfl
  | cons message rest ih =>
    rw [List.forall_mem_cons] at stale
    rw [List.foldl_cons, offer, if_neg stale.1]
    exact ih stale.2

theorem foldl_deliver_first
    {messages : Finset Message}
    (isFinal : Final newer key registers messages name final)
    (covers : ∀ message, message ∈ arrivals ↔ message ∈ messages) :
    (final :: arrivals).foldl (deliver newer key) registers name = some final := by
  rw [foldl_deliver, List.filter_cons, if_pos (by simpa using isFinal.keyed), List.foldl_cons]
  have first : offer newer (registers name) final = some final := by
    cases holds : registers name with
    | none => rfl
    | some held => rw [offer, if_pos (isFinal.taken held holds)]
  rw [first]
  apply foldl_offer_of_stale
  intro message member
  rw [List.mem_filter, covers, decide_eq_true_eq] at member
  exact isFinal.latest message member.1 member.2

section Order

variable [IsStrictOrder Message newer]

variable (newer) in
/-- A register holds in the end what it held first or a newer message that was offered,
and no message that was offered is newer. -/
theorem foldl_offer_spec (start : Option Message) (messages : List Message) :
    (messages.foldl (offer newer) start = start ∨
      ∃ final ∈ messages, messages.foldl (offer newer) start = some final ∧
        ∀ held ∈ start, newer held final) ∧
    ∀ message ∈ messages, ∃ final,
      messages.foldl (offer newer) start = some final ∧ ¬ newer final message := by
  induction messages using List.reverseRecOn with
  | nil => exact ⟨.inl rfl, fun message member => absurd member List.not_mem_nil⟩
  | append_singleton past message ih =>
    obtain ⟨origin, settled⟩ := ih
    simp only [List.foldl_append, List.foldl_cons, List.foldl_nil]
    cases holds : past.foldl (offer newer) start with
    | none =>
      have noPast : past = [] := by
        apply List.eq_nil_iff_forall_not_mem.mpr
        intro earlier member
        obtain ⟨final, found, _⟩ := settled earlier member
        rw [holds] at found
        cases found
      subst noPast
      refine ⟨.inr ⟨message, List.mem_singleton_self message, rfl, ?_⟩, ?_⟩
      · intro held first
        rw [List.foldl_nil] at holds
        rw [holds] at first
        cases first
      · intro other member
        rw [List.nil_append, List.mem_singleton] at member
        exact ⟨message, rfl, member ▸ irrefl_of newer message⟩
    | some current =>
      rw [holds] at origin settled
      have stale : ∀ earlier ∈ past, ¬ newer current earlier := by
        intro earlier member
        obtain ⟨final, found, notNewer⟩ := settled earlier member
        cases found
        exact notNewer
      rw [offer]
      split_ifs with taken
      · refine ⟨.inr ⟨message, by simp, rfl, ?_⟩, ?_⟩
        · intro held first
          rcases origin with same | ⟨final, _, found, newerThanStart⟩
          · rw [← same] at first
            cases first
            exact taken
          · cases found
            exact trans_of newer (newerThanStart held first) taken
        · intro other member
          refine ⟨message, rfl, ?_⟩
          rcases List.mem_append.mp member with earlier | last
          · exact fun later => stale other earlier (trans_of newer taken later)
          · exact List.mem_singleton.mp last ▸ irrefl_of newer message
      · refine ⟨origin.imp_right ?_, ?_⟩
        · rintro ⟨final, member, found, newerThanStart⟩
          exact ⟨final, List.mem_append_left _ member, found, newerThanStart⟩
        · intro other member
          refine ⟨current, rfl, ?_⟩
          rcases List.mem_append.mp member with earlier | last
          · exact stale other earlier
          · exact List.mem_singleton.mp last ▸ taken

variable (newer) (key) in
/-- After all messages of a set a register holds what it held first, where that stays, or
a message that can be final. -/
theorem foldl_deliver_spec
    (registers : Key → Option Message) {arrivals : List Message}
    (covers : ∀ message, message ∈ arrivals ↔ message ∈ messages)
    (name : Key) :
    (arrivals.foldl (deliver newer key) registers name = registers name ∧
      ∀ message, ¬ Final newer key registers messages name message) ∨
    ∃ final, Final newer key registers messages name final ∧
      arrivals.foldl (deliver newer key) registers name = some final := by
  rw [foldl_deliver]
  obtain ⟨origin, settled⟩ := foldl_offer_spec newer (registers name)
    (arrivals.filter fun message => key message = some name)
  have offered : ∀ message,
      message ∈ arrivals.filter (fun message => key message = some name) ↔
        message ∈ messages ∧ key message = some name := by
    intro message
    simp [covers]
  rcases origin with same | ⟨final, member, found, taken⟩
  · refine .inl ⟨same, ?_⟩
    intro message isFinal
    obtain ⟨held, holds, notNewer⟩ :=
      settled message ((offered message).mpr ⟨isFinal.mem, isFinal.keyed⟩)
    rw [same] at holds
    exact notNewer (isFinal.taken held holds)
  · obtain ⟨member, keyed⟩ := (offered final).mp member
    refine .inr ⟨final, ⟨member, keyed, taken, ?_⟩, found⟩
    intro other otherMember otherKeyed
    obtain ⟨held, holds, notNewer⟩ :=
      settled other ((offered other).mpr ⟨otherMember, otherKeyed⟩)
    rw [found] at holds
    cases holds
    exact notNewer

/-- All orders of arrival, with repetitions, end alike exactly when each key has at most
one message that can be final. -/
theorem converges_iff (registers : Key → Option Message) (messages : Finset Message) :
    (∀ first second : List Message,
      (∀ message, message ∈ first ↔ message ∈ messages) →
      (∀ message, message ∈ second ↔ message ∈ messages) →
        first.foldl (deliver newer key) registers =
          second.foldl (deliver newer key) registers) ↔
      ∀ name message other, Final newer key registers messages name message →
        Final newer key registers messages name other → message = other := by
  constructor
  · intro converges name message other messageFinal otherFinal
    have covers : ∀ next, next ∈ messages.toList ↔ next ∈ messages :=
      fun next => Finset.mem_toList
    have coversFrom : ∀ first ∈ messages, ∀ next,
        next ∈ first :: messages.toList ↔ next ∈ messages := by
      intro first member next
      rw [List.mem_cons, Finset.mem_toList]
      exact or_iff_right_of_imp fun same => same ▸ member
    have same := congrFun
      (converges _ _ (coversFrom message messageFinal.mem) (coversFrom other otherFinal.mem))
      name
    rw [foldl_deliver_first messageFinal covers, foldl_deliver_first otherFinal covers] at same
    exact Option.some.inj same
  · intro unique first second coversFirst coversSecond
    funext name
    rcases foldl_deliver_spec newer key registers
      coversFirst name with ⟨same, none⟩ | ⟨final, isFinal, found⟩
    · rcases foldl_deliver_spec newer key registers
        coversSecond name with ⟨sameSecond, _⟩ | ⟨other, otherFinal, _⟩
      · rw [same, sameSecond]
      · exact absurd otherFinal (none other)
    · rcases foldl_deliver_spec newer key registers
        coversSecond name with ⟨_, none⟩ | ⟨other, otherFinal, foundSecond⟩
      · exact absurd isFinal (none final)
      · rw [found, foundSecond, unique name final other isFinal otherFinal]

end Order

end LatestWins
