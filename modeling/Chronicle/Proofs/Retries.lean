import Chronicle.Proofs.Faults
import Chronicle.Proofs.Reopening

/-!
# Ending a generation again after a failure

A call of the host that fails stops the end of a generation. Ended again on a host that works, the generation comes
out as if nothing had failed, unless it was the message that could not be written: then the turn has already been
taken in the store, and it is taken a second time.
-/

namespace Chronicle

/-- The world with a state in the store of its chat. -/
def World.stocked (w : World) (s : State) : World :=
  { w with host := { w.host with chat := { w.host.chat with stored := s.toStored } } }

namespace Controller
open SessionProgram HostProgram

variable {options : Options} {f : Fault} {f'? : Option Fault} {e : HostError} {s s' : Session} {w w₁ : World}
  {i : Nat} {m : Message}

/-- A world in which the end of a generation goes the same way as in another one. -/
structure Untouched (w w₁ : World) : Prop where
  serves : w₁.Serves
  chat : w₁.host.chat = w.host.chat
  clock : w₁.clock = w.clock
  watermark : (w₁.session w.host.chat.id).watermark = (w.session w.host.chat.id).watermark

theorem Untouched.heldAt_eq (h : Untouched w w₁) (options : Options) (i : Nat) (m : Message) :
    heldAt options w₁ i m = heldAt options w i m := by
  have hturn : turnAt options w₁ i m = turnAt options w i m := by rw [turnAt, turnAt, h.chat, h.clock]
  rw [heldAt, heldAt, hturn, h.chat, Session.covers, Session.covers, h.watermark]

theorem failed_process (h : w.Serves) (hm : w.host.chat.messages[i]? = some m) (hu : m.isUser = false)
    (hrun : (process options i m).execFaulty s (some f) w = ((.error e, s'), f'?, w₁)) :
    s' = s ∧ ((f.kind ≠ .setMessage ∧ w₁ = w) ∨ (f.kind = .setMessage ∧ w₁.Serves ∧
      ∃ disk, w₁ = w.saved { w.host.chat with stored := (turnAt options w i m).state.toStored } disk)) := by
  have hread : readStore.exec w = (.ok w.host.chat.store, w) := by
    rw [exec_readStore, World.reply_of_notMem (h.answers (by decide))]
  have hlength : lastIndex.exec w = (.ok (lastOf w.host.chat.messages.length), w) := by
    rw [exec_lastIndex, World.reply_of_notMem (h.answers (by decide))]
  obtain ⟨disk, hwrite, hserves⟩ := exec_writeStore h (turnAt options w i m).state.toStored
  obtain ⟨disk', hput, -⟩ := exec_setMessage hserves hm (turnAt options w i m).text
  rw [process, if_neg (by simp [hu])] at hrun
  rcases failed_bind_lift isCall_readStore hread hrun with ⟨hk, rfl, rfl⟩ | ⟨f₁, hf₁, hrun⟩
  · exact ⟨rfl, Or.inl ⟨by rw [hk]; decide, rfl⟩⟩
  rcases failed_bind_lift isCall_lastIndex hlength hrun with ⟨hk, rfl, rfl⟩ | ⟨f₂, hf₂, hrun⟩
  · exact ⟨rfl, Or.inl ⟨by rw [← hf₁, hk]; decide, rfl⟩⟩
  rw [execFaulty_bind_ok (execFaulty_now _ _ _)] at hrun
  rcases failed_bind_lift (isCall_writeStore _) hwrite hrun with ⟨hk, rfl, rfl⟩ | ⟨f₃, hf₃, hrun⟩
  · exact ⟨rfl, Or.inl ⟨by rw [← hf₁, ← hf₂, hk]; decide, rfl⟩⟩
  rcases failed_bind_lift (isCall_setMessage _ _) hput hrun with ⟨hk, rfl, rfl⟩ | ⟨f₄, -, hrun⟩
  · exact ⟨rfl, Or.inr ⟨by rw [← hf₁, ← hf₂, ← hf₃, hk], hserves, disk, rfl⟩⟩
  · rw [execFaulty_bind_ok (execFaulty_modify _ _ _ _), execFaulty_pure] at hrun
    exact absurd hrun (by simp)

/-- A session that is stored again without its generation start, and otherwise as it was. -/
theorem untouched_withSession {w' : World} (hserves : w'.Serves) (hchat : w'.host.chat = w.host.chat)
    (hclock : w'.clock = w.clock) {id : String} (hid : w.host.chat.id = id)
    (hs : s.watermark = (w.session w.host.chat.id).watermark) : Untouched w (w'.withSession id s) where
  serves := ⟨hserves.refused, hserves.kept⟩
  chat := hchat
  clock := hclock
  watermark := by rw [← hid, World.session_withSession, hs]

/-- Where the end of a generation has failed nothing has been done, unless the message could not be written: then
the state of the turn is in the store already. -/
theorem failed_onGenerationEnded (h : w.Serves) (hlast : i + 1 = w.host.chat.messages.length)
    (hm : w.host.chat.messages[i]? = some m) (hu : m.isUser = false)
    (hrun : (onGenerationEnded options).execFaulty (some f) w = (.error e, f'?, w₁)) :
    (f.kind ≠ .setMessage ∧ Untouched w w₁) ∨
      (f.kind = .setMessage ∧ (w.session w.host.chat.id).covers i m.activeText = false ∧
        Untouched (w.stocked (turnAt options w i m).state) w₁) := by
  have hlength : lastIndex.exec w = (.ok (some i), w) := by
    rw [exec_lastIndex, World.reply_of_notMem (h.answers (by decide)), lastOf_eq hlast]
  have hmessage : (message i).exec w = (.ok m, w) := by
    rw [exec_message, World.reply_of_notMem (h.answers (by decide)), message_eq_ok_iff.mpr hm]
  rcases failed_withSession (h.answers (by decide)) hrun with ⟨hk, rfl⟩ | ⟨f₁, s', w', hf₁, hbody, rfl⟩
  · exact Or.inl ⟨by rw [hk]; decide, h, rfl, rfl, rfl⟩
  rw [execFaulty_bind_ok (execFaulty_get _ _ _), execFaulty_bind_ok (execFaulty_modify _ _ _ _)] at hbody
  rcases failed_bind_lift isCall_lastIndex hlength hbody with ⟨hk, rfl, rfl⟩ | ⟨f₂, hf₂, hbody⟩
  · exact Or.inl ⟨by rw [← hf₁, hk]; decide, untouched_withSession h rfl rfl rfl rfl⟩
  rcases failed_bind_lift (isCall_message i) hmessage hbody with ⟨hk, rfl, rfl⟩ | ⟨f₃, hf₃, hbody⟩
  · exact Or.inl ⟨by rw [← hf₁, ← hf₂, hk]; decide, untouched_withSession h rfl rfl rfl rfl⟩
  have hcovers : Session.covers { w.session w.host.chat.id with generationStart := none } i m.activeText =
      (w.session w.host.chat.id).covers i m.activeText := rfl
  rw [execFaulty_bind_ok (execFaulty_get _ _ _), hcovers] at hbody
  cases hc : (w.session w.host.chat.id).covers i m.activeText with
  | true =>
    rw [if_pos hc] at hbody
    split at hbody <;> exact absurd hbody (by simp [execFaulty_pure])
  | false =>
    rw [if_neg (Bool.eq_false_iff.mp hc)] at hbody
    obtain ⟨rfl, ⟨hk, rfl⟩ | ⟨hk, hserves, disk, rfl⟩⟩ := failed_process h hm hu hbody
    · exact Or.inl ⟨by rw [← hf₁, ← hf₂, ← hf₃]; exact hk, untouched_withSession h rfl rfl rfl rfl⟩
    · refine Or.inr ⟨by rw [← hf₁, ← hf₂, ← hf₃]; exact hk, rfl, ?_⟩
      exact untouched_withSession (w := w.stocked _) hserves rfl rfl rfl rfl

theorem failed_load (h : w.Serves) {v : Json} {g : Session → Session} {outcome : Outcome}
    (hrun : (show SessionProgram Outcome from do writeStore v; modify g; return outcome).execFaulty s (some f) w =
      ((.error e, s'), f'?, w₁)) : s' = s ∧ w₁ = w := by
  obtain ⟨disk, hwrite, -⟩ := exec_writeStore h v
  rcases failed_bind_lift (isCall_writeStore v) hwrite hrun with ⟨-, hs, hw⟩ | ⟨f', -, hrun⟩
  · exact ⟨hs, hw⟩
  · rw [execFaulty_bind_ok (execFaulty_modify _ _ _ _), execFaulty_pure] at hrun
    exact absurd hrun (by simp)

/-- Loading that has failed has changed nothing, whichever call it was. -/
theorem failed_reload (h : w.Serves) (hl : ¬w.Unlisted) {start : Option Nat}
    (hrun : (reload start).execFaulty s (some f) w = ((.error e, s'), f'?, w₁)) : s' = s ∧ w₁ = w := by
  have hlength : length.exec w = (.ok w.host.chat.messages.length, w) := by
    rw [exec_length, World.reply_of_notMem (h.answers (by decide))]
  unfold reload at hrun
  rcases failed_bind_lift isCall_length hlength hrun with ⟨-, hs, hw⟩ | ⟨f', -, hrun⟩
  · exact ⟨hs, hw⟩
  cases ht : w.host.chat.target start with
  | none =>
    have htarget : (lastOf w.host.chat.messages.length).bind (fun last => start.map (min · last)) = none := ht
    simp only [htarget] at hrun
    rw [execFaulty_bind_ok (execFaulty_pure _ _ _ _)] at hrun
    exact failed_load h hrun
  | some t =>
    have htarget : (lastOf w.host.chat.messages.length).bind (fun last => start.map (min · last)) = some t := ht
    have hlist : (messages 0 (t + 1)).exec w = (.ok (w.host.chat.slice 0 (t + 1)), w) := by
      rw [exec_messages, World.reply_of_notMem hl]
    simp only [htarget] at hrun
    rcases failed_bind_lift (isCall_messages 0 (t + 1)) hlist hrun with ⟨-, hs, hw⟩ | ⟨f'', -, hrun⟩
    · exact ⟨hs, hw⟩
    · exact failed_load h hrun

/-- Loading can be tried again whatever call has failed. -/
theorem retried_reload (h : w.Serves) (hl : ¬w.Unlisted) {start : Option Nat}
    (hrun : (withSession (reload start)).execFaulty (some f) w = (.error e, f'?, w₁)) :
    ∃ outcome w₂ w₃, (withSession (reload start)).exec w₁ = (.ok outcome, w₂) ∧
      (withSession (reload start)).exec w = (.ok outcome, w₃) ∧ w₂.host.chat = w₃.host.chat := by
  have hunchanged : w₁.host = w.host := by
    rcases failed_withSession (h.answers (by decide)) hrun with ⟨-, rfl⟩ | ⟨f', s', w', -, hbody, rfl⟩
    · rfl
    · rw [(failed_reload h hl hbody).2]
      rfl
  have hserves : w₁.Serves := ⟨by rw [hunchanged]; exact h.refused, by rw [hunchanged]; exact h.kept⟩
  have hlisted : ¬w₁.Unlisted := by rwa [World.unlisted_iff, hunchanged]
  obtain ⟨disk, hretry, -⟩ := exec_withSession_reload hserves hlisted start
  obtain ⟨disk', hexec, -⟩ := exec_withSession_reload h hl start
  rw [hunchanged] at hretry
  exact ⟨_, _, _, hretry, hexec, rfl⟩

/-- The turn that is taken on the state which the turn of a message has left in the store. -/
def turnAgain (options : Options) (w : World) (i : Nat) (m : Message) : Turn :=
  turnAt options (w.stocked (turnAt options w i m).state) i m

/-- A generation whose end has failed is ended again on a host that works. What is in the store and in the message
then is what there is after one run without the failure, exactly if the call that failed was not the writing of the
message, or if taking the turn again changes neither the state nor the text. -/
theorem retried_once_iff (options : Options) (f : Fault) (w w₁ : World) (i : Nat) (m : Message) (e : HostError)
    (f? : Option Fault) (h : w.Serves) (hlast : i + 1 = w.host.chat.messages.length)
    (hm : w.host.chat.messages[i]? = some m) (hu : m.isUser = false)
    (hrun : (onGenerationEnded options).execFaulty (some f) w = (.error e, f?, w₁)) :
    ∃ outcome w₂ outcome' w₃, (onGenerationEnded options).exec w₁ = (.ok outcome, w₂) ∧
      (onGenerationEnded options).exec w = (.ok outcome', w₃) ∧
      ((w₂.host.chat.stored = w₃.host.chat.stored ∧
          w₂.host.chat.messages[i]?.map (·.activeText) = w₃.host.chat.messages[i]?.map (·.activeText)) ↔
        (f.kind = .setMessage →
          (turnAgain options w i m).state.toStored = (turnAt options w i m).state.toStored ∧
            (turnAgain options w i m).text = (turnAt options w i m).text)) := by
  obtain ⟨outcome', w₃, hexec, -, hheld⟩ := holds_onGenerationEnded h hlast hm hu options
  rcases failed_onGenerationEnded h hlast hm hu hrun with ⟨hk, ht⟩ | ⟨hk, hc, ht⟩
  · obtain ⟨outcome, w₂, hretry, -, hheld₂⟩ :=
      holds_onGenerationEnded ht.serves (by rw [ht.chat]; exact hlast) (by rw [ht.chat]; exact hm) hu options
    rw [ht.heldAt_eq] at hheld₂
    refine ⟨_, _, _, _, hretry, hexec, ?_⟩
    rw [hheld.stored, hheld.message, hheld₂.stored, hheld₂.message]
    exact ⟨fun _ hset => absurd hset hk, fun _ => ⟨rfl, rfl⟩⟩
  · obtain ⟨outcome, w₂, hretry, -, hheld₂⟩ :=
      holds_onGenerationEnded ht.serves (by rw [ht.chat]; exact hlast) (by rw [ht.chat]; exact hm) hu options
    have hagain : heldAt options (w.stocked (turnAt options w i m).state) i m =
        ((turnAgain options w i m).state.toStored, (turnAgain options w i m).text) := heldAt_of_not_covers hc
    rw [ht.heldAt_eq, hagain] at hheld₂
    rw [heldAt_of_not_covers hc] at hheld
    refine ⟨_, _, _, _, hretry, hexec, ?_⟩
    rw [hheld.stored, hheld.message, hheld₂.stored, hheld₂.message, Option.some.injEq]
    dsimp only
    exact ⟨fun heq _ => heq, fun heq => heq hk⟩

def full : HostError := .storage "disk full"

theorem exists_of_isOk (run : Except HostError α × β) (h : run.1.isOk = true) : ∃ a, run = (.ok a, run.2) := by
  obtain ⟨a, ha⟩ := exists_ok_of_isOk h
  exact ⟨a, Prod.ext ha rfl⟩

theorem exists_of_isOk_eq_false (run : Except HostError α × β) (h : run.1.isOk = false) :
    ∃ e, run = (.error e, run.2) := by
  obtain ⟨r, b⟩ := run
  cases r with
  | error e => exact ⟨e, rfl⟩
  | ok a => exact absurd h (by simp [Except.isOk, Except.toBool])

/-- A store that cannot be written leaves everything as it was, and the second run does what one run does. -/
theorem retried_once_camp : ∃ e f? w₁ outcome w₂ outcome' w₃,
    (onGenerationEnded campOptions).execFaulty (some ⟨.writeStore, 0, full⟩) camp = (.error e, f?, w₁) ∧
      (onGenerationEnded campOptions).exec w₁ = (.ok outcome, w₂) ∧
      (onGenerationEnded campOptions).exec camp = (.ok outcome', w₃) ∧
      w₂.host.chat.stored = w₃.host.chat.stored ∧
      w₂.host.chat.messages[1]?.map (·.activeText) = w₃.host.chat.messages[1]?.map (·.activeText) := by
  obtain ⟨e, hrun⟩ := exists_of_isOk_eq_false
    ((onGenerationEnded campOptions).execFaulty (some ⟨.writeStore, 0, full⟩) camp) (by decide +kernel)
  obtain ⟨outcome, w₂, outcome', w₃, hretry, hexec, hiff⟩ := retried_once_iff campOptions ⟨.writeStore, 0, full⟩ camp _ 1
    chest e _ serves_camp rfl rfl rfl hrun
  exact ⟨e, _, _, outcome, w₂, outcome', w₃, hrun, hretry, hexec, hiff.mpr (fun h => absurd h (by decide))⟩

def purse : World := freshWorld (.inMemory ⟨"camp", [.plain 0 .assistant "A coin. <ADD :: gold :: 5>"], .obj []⟩) ⟨0, 0⟩

/-- A message that cannot be written, and the second run adds the same coins again. -/
theorem added_twice_purse : ∃ e f? w₁ outcome w₂ outcome' w₃,
    (onGenerationEnded campOptions).execFaulty (some ⟨.setMessage, 0, full⟩) purse = (.error e, f?, w₁) ∧
      (onGenerationEnded campOptions).exec w₁ = (.ok outcome, w₂) ∧
      (onGenerationEnded campOptions).exec purse = (.ok outcome', w₃) ∧
      State.ofStored? w₂.host.chat.store = some ⟨[("gold", .num (.int 10))], [], []⟩ ∧
      State.ofStored? w₃.host.chat.store = some ⟨[("gold", .num (.int 5))], [], []⟩ := by
  obtain ⟨e, hrun⟩ := exists_of_isOk_eq_false
    ((onGenerationEnded campOptions).execFaulty (some ⟨.setMessage, 0, full⟩) purse) (by decide +kernel)
  obtain ⟨outcome, hretry⟩ := exists_of_isOk ((onGenerationEnded campOptions).exec
    ((onGenerationEnded campOptions).execFaulty (some ⟨.setMessage, 0, full⟩) purse).2.2) (by decide +kernel)
  obtain ⟨outcome', hexec⟩ := exists_of_isOk ((onGenerationEnded campOptions).exec purse) (by decide +kernel)
  exact ⟨e, _, _, outcome, _, outcome', _, hrun, hretry, hexec, State.eq_some_of_any_holdsOnly (by decide +kernel),
    State.eq_some_of_any_holdsOnly (by decide +kernel)⟩

end Controller

end Chronicle
