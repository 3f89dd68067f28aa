import Chronicle.Proofs.Loading
import Chronicle.Proofs.StateInvariants

/-!
# Reopening a chat

After a message has been processed, the chat holds the same state in its store and in the message. Loading it
changes nothing, and neither does a controller that starts over on the chat.
-/

namespace Chronicle

/-- The text in which a turn embeds its state. -/
def Turn.narrative (options : Options) (text : String) : String :=
  if options.keepCommands then Block.strip text else stripCommands (Block.strip text)

theorem Turn.text_take (options : Options) (tick : Tick) (s : State) (text : String) :
    (Turn.take options tick s text).text =
      Block.embed (Turn.narrative options text) (Turn.take options tick s text).state := rfl

def State.holdsOnly (name : String) (n : Num) : State → Bool
  | ⟨[(key, .num k)], [], []⟩ => key = name ∧ k = n
  | _ => false

theorem State.eq_of_holdsOnly {name : String} {n : Num} {s : State} (h : s.holdsOnly name n = true) :
    s = ⟨[(name, .num n)], [], []⟩ := by
  unfold holdsOnly at h
  split at h
  · rw [(of_decide_eq_true h).1, (of_decide_eq_true h).2]
  · exact absurd h (by simp)

theorem State.eq_some_of_any_holdsOnly {s? : Option State} {name : String} {n : Num}
    (h : s?.any (·.holdsOnly name n) = true) : s? = some ⟨[(name, .num n)], [], []⟩ := by
  obtain ⟨s, hs, hholds⟩ := (Option.any_eq_true _ _).mp h
  rw [hs, State.eq_of_holdsOnly hholds]

namespace Controller
open SessionProgram HostProgram

variable {options : Options} {w w' : World} {i : Nat} {m : Message} {report : Report}

theorem wellFormed_turnAt (options : Options) (w : World) (i : Nat) (m : Message) :
    (turnAt options w i m).state.WellFormed :=
  Turn.wellFormed_take options _ (State.wellFormed_stored _) m.activeText

theorem HasProcessed.settled (h : HasProcessed options w i report w' m)
    (hn : ¬Block.startMarker <:+: (Block.strip (Turn.narrative options m.activeText)).toList)
    (hl : (turnAt options w i m).state.Legible 127) :
    w'.host.chat.Settled i (m.setText (turnAt options w i m).text) (turnAt options w i m).state := by
  rw [h.chat]
  constructor
  · exact List.getElem?_set_self (Transcript.length_of_getElem? h.message)
  · rw [Message.isUser_setText, h.notUser]
  · have htext : (turnAt options w i m).text =
        Block.embed (Turn.narrative options m.activeText) (turnAt options w i m).state := Turn.text_take _ _ _ _
    rw [Message.activeText_setText, htext, Block.parse?_embed _ hn,
      Block.parse?_render (wellFormed_turnAt options w i m) hl]
  · rfl

theorem ofStored?_of_settled {c : Transcript} {s : State} (h : c.Settled i m s) (hw : s.WellFormed)
    (hl : s.Legible 127) : State.ofStored? c.store = some s := by
  have hstore : c.store = s.toStored := by rw [Transcript.store, h.stored]; rfl
  rw [hstore, State.ofStored?_toStored hw hl.years]

/-- A controller without sessions on a host. -/
def freshWorld (host : Host) (clock : Instant) : World := ⟨host, clock, []⟩

/-- A controller that starts over on a chat that holds a state marks the message with the state. -/
theorem exec_onChatChanged_of_settled (host : Host) {s : State} (hs : host.chat.Settled i m s) (hr : host.refused = [])
    (hk : host.Kept) (hlast : i + 1 = host.chat.messages.length) (clock : Instant) :
    ∃ outcome disk, onChatChanged.exec (freshWorld host clock) = (.ok outcome,
        (freshWorld { host with disk } clock).withSession host.chat.id ⟨some (.of i m.activeText), some i⟩) ∧
      (freshWorld { host with disk } clock).Serves := by
  have hserves : (freshWorld host clock).Serves := ⟨by simp [freshWorld, hr], hk⟩
  have hlisted : ¬(freshWorld host clock).Unlisted := by simp [World.Unlisted, freshWorld, hr]
  obtain ⟨disk, hsettle, hserves'⟩ := exec_settle hserves (some i) ⟨none, some i⟩
  have hload := exec_onChatChanged hserves hlast hs.message hs.notUser hlisted
  rw [exec_withSession_eq (hserves.answers (by decide)), exec_bind_ok (exec_set _ _ _),
    exec_reload (hserves.answers (by decide)) (Or.inr hlisted), hsettle] at hload
  have hchat : (freshWorld host clock).host.chat.loaded (some i) = host.chat := hs.loaded_eq
  have hmark : (freshWorld host clock).host.chat.mark (some i) = some (.of i m.activeText) := hs.mark_eq
  rw [hchat] at hload hserves'
  rw [hmark] at hload
  exact ⟨_, disk, hload, hserves'⟩

theorem skip_of_settled (host : Host) {s : State} (hs : host.chat.Settled i m s) (hr : host.refused = [])
    (hk : host.Kept) (hlast : i + 1 = host.chat.messages.length) (options : Options) (clock clock' : Instant) :
    ∃ outcome v, onChatChanged.exec (freshWorld host clock) = (.ok outcome, v) ∧
      ∃ reason v', (onGenerationEnded options).exec { v with clock := clock' } = (.ok (.skipped reason), v') ∧
        v'.host.chat = host.chat := by
  obtain ⟨outcome, disk, hload, hserves⟩ := exec_onChatChanged_of_settled host hs hr hk hlast clock
  refine ⟨_, _, hload, ?_⟩
  let v : World := { (freshWorld { host with disk } clock).withSession host.chat.id
    ⟨some (.of i m.activeText), some i⟩ with clock := clock' }
  have hsession : v.session host.chat.id = ⟨some (.of i m.activeText), some i⟩ := World.session_withSession _ _ _
  have hv : v.Serves := ⟨hserves.refused, hserves.kept⟩
  have hc : Session.covers ⟨some (.of i m.activeText), some i⟩ i m.activeText = true := by simp [Session.covers]
  exact ⟨_, _, exec_onGenerationEnded_of_covers hv hlast hs.message options hsession hc, rfl⟩

/-- What processing a message leaves is the same for everyone who reads it. If stripping leaves no start marker
in the narrative and the new state is legible, then the message and the store of the chat both hold this state,
loading from the message changes nothing, and a controller that starts over on the chat skips the message if
it is the last one. -/
theorem reopens_processed (options : Options) (w w' : World) (i : Nat) (report : Report)
    (h : (onGenerationEnded options).exec w = (.ok (.processed i report), w') ∨
      (processMessage options i).exec w = (.ok (.processed i report), w')) :
    ∃ m, w.host.chat.messages[i]? = some m ∧ report = (turnAt options w i m).report ∧
      (¬Block.startMarker <:+: (Block.strip (Turn.narrative options m.activeText)).toList →
        (turnAt options w i m).state.Legible 126 →
        (∃ m', w'.host.chat.messages[i]? = some m' ∧
          Block.parse? m'.activeText = some (turnAt options w i m).state ∧
          State.ofStored? w'.host.chat.store = some (turnAt options w i m).state) ∧
        (∀ v : World, v.host = w'.host → ((reloadFrom i).exec v).2.host.chat = w'.host.chat) ∧
        (i + 1 = w.host.chat.messages.length → ∀ (options' : Options) (clock clock' : Instant),
          ∃ outcome v, onChatChanged.exec (freshWorld { w'.host with refused := [] } clock) = (.ok outcome, v) ∧
            ∃ reason v', (onGenerationEnded options').exec { v with clock := clock' } =
              (.ok (.skipped reason), v') ∧ v'.host.chat = w'.host.chat)) := by
  obtain ⟨m, hp⟩ : ∃ m, HasProcessed options w i report w' m := by
    rcases h with h | h
    · exact (processed_of_onGenerationEnded h).2
    · exact (processed_of_processMessage h).2
  refine ⟨m, hp.message, hp.report, ?_⟩
  intro hn hl
  have hl' := hl.mono (e := 127) (by decide)
  have hs := hp.settled hn hl'
  refine ⟨⟨_, hs.message, hs.block, ofStored?_of_settled hs (wellFormed_turnAt options w i m) hl'⟩, ?_, ?_⟩
  · intro v hv
    rw [← hv] at hs ⊢
    -- loading may be stopped by the host before it writes, and otherwise writes what is there already
    rcases chat_reloadFrom i v with hc | hc
    · exact hc
    · rw [hc, hs.loaded_eq]
  · intro hlast options' clock clock'
    have hlength : i + 1 = w'.host.chat.messages.length := by
      rw [hp.chat, processedChat, List.length_set]
      exact hlast
    exact skip_of_settled { w'.host with refused := [] } hs rfl hp.serves.kept hlength options' clock clock'

def chest : Message := .plain 1 .assistant "A chest. <SET :: gold :: 5>"

/-- A controller on a chat of two messages. -/
def camp : World := freshWorld (.inMemory ⟨"camp", [.plain 0 .assistant "They rest.", chest], .obj []⟩) ⟨0, 0⟩

def campOptions : Options := ⟨false, false⟩

theorem serves_camp : camp.Serves where
  refused := by simp [camp, freshWorld, Host.inMemory]
  kept := by simp [camp, freshWorld, Host.inMemory, Host.Kept]

theorem exists_processed_camp :
    ∃ report w', (onGenerationEnded campOptions).exec camp = (.ok (.processed 1 report), w') :=
  exec_onGenerationEnded_of_not_covers (m := chest) serves_camp rfl rfl campOptions rfl rfl rfl

theorem state_camp : (turnAt campOptions camp 1 chest).state = ⟨[("gold", .num (.int 5))], [], []⟩ :=
  State.eq_of_holdsOnly (by decide +kernel)

theorem narrative_camp :
    ¬Block.startMarker <:+: (Block.strip (Turn.narrative campOptions chest.activeText)).toList := by decide +kernel

theorem legible_camp : State.Legible 126 ⟨[("gold", .num (.int 5))], [], []⟩ where
  texts := by
    intro t hm
    obtain rfl : t = "gold" := by simpa [State.texts, State.values] using hm
    exact Block.not_infix_of_notMem (by simp)
  depth := by decide
  years := by simp
  numbers := by
    intro v hv n hn
    obtain rfl : v = .obj [("gold", .num (.int 5))] := by simpa [State.values] using hv
    obtain rfl : n = .int 5 := by simpa [Json.mem_numbers_obj] using hn
    exact Num.readsBack_int (by decide) (by decide)

theorem reopens_processed_camp : ∃ report w',
    (onGenerationEnded campOptions).exec camp = (.ok (.processed 1 report), w') ∧
      State.ofStored? w'.host.chat.store = some ⟨[("gold", .num (.int 5))], [], []⟩ ∧
      ((reloadFrom 1).exec w').2.host.chat = w'.host.chat ∧
      ∃ outcome v, onChatChanged.exec (freshWorld { w'.host with refused := [] } ⟨60, 0⟩) = (.ok outcome, v) ∧
        ∃ reason v', (onGenerationEnded ⟨true, false⟩).exec { v with clock := ⟨61, 0⟩ } =
          (.ok (.skipped reason), v') ∧ v'.host.chat = w'.host.chat := by
  obtain ⟨report, w', hrun⟩ := exists_processed_camp
  obtain ⟨m, hm, -, h⟩ := reopens_processed campOptions camp w' 1 report (Or.inl hrun)
  obtain rfl : chest = m := Option.some.inj hm
  obtain ⟨⟨m', -, -, hstore⟩, hreload, hskip⟩ := h narrative_camp (by rw [state_camp]; exact legible_camp)
  rw [state_camp] at hstore
  exact ⟨report, w', hrun, hstore, hreload w' rfl, hskip rfl ⟨true, false⟩ ⟨60, 0⟩ ⟨61, 0⟩⟩

end Controller

end Chronicle
