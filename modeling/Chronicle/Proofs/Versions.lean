import Chronicle.Chat.Message

/-!
# The versions of a message

A message holds versions of its text, of which one is current. A text of its own is the only version as long as there
are no swipes; the first swipe that is added makes it the first of two. The text of the current version is held twice,
as the text of the message and as its active swipe. Whatever is done to a message, the two agree, and each version keeps
the text that was last given to it.
-/

namespace Chronicle

/-- What can be done to the texts of a message. -/
inductive Revision where
  | setText (text : String)
  | addSwipe (text : String)
  | selectSwipe (k : Nat)
deriving DecidableEq, Repr

/-- What a revision answers: the number of a new swipe, or whether there was a swipe to select. -/
inductive Answer where
  | done
  | added (k : Nat)
  | selected (found : Bool)
deriving DecidableEq, Repr

namespace Message

/-- Puts a swipe behind the others, or behind the text of the message, and selects it. -/
def pushSwipe (text : String) (m : Message) : Message × Nat :=
  let pushed := { m with swipes := (if m.swipes.isEmpty then [m.text] else m.swipes) ++ [text] }
  let k := pushed.swipes.length - 1
  ((pushed.selectSwipe? k).getD pushed, k)

/-- The swipe that has been pushed is there to be selected. -/
theorem pushSwipe_eq (text : String) (m : Message) :
    m.pushSwipe text = (m.addSwipe text, (m.addSwipe text).activeIndex) := by
  simp [pushSwipe, selectSwipe?, addSwipe, activeIndex]

def revise (m : Message) : Revision → Message × Answer
  | .setText text => (m.setText text, .done)
  | .addSwipe text => ((m.pushSwipe text).1, .added (m.pushSwipe text).2)
  | .selectSwipe k =>
    match m.selectSwipe? k with
    | some m => (m, .selected true)
    | none => (m, .selected false)

def after (m : Message) (revisions : List Revision) : Message := revisions.foldl (fun m r => (m.revise r).1) m

end Message

/-- Versions of a text, of which one is current. -/
structure Versions where
  texts : List String
  current : Nat
  current_lt : current < texts.length

namespace Versions

def single (text : String) : Versions := ⟨[text], 0, Nat.one_pos⟩

def text (v : Versions) : String := v.texts.get ⟨v.current, v.current_lt⟩

/-- A single version cannot be selected, as it is not a swipe. -/
def revise (v : Versions) : Revision → Versions × Answer
  | .setText text => (⟨v.texts.set v.current text, v.current, by simpa using v.current_lt⟩, .done)
  | .addSwipe text => (⟨v.texts ++ [text], v.texts.length, by simp⟩, .added v.texts.length)
  | .selectSwipe k =>
    if h : k < v.texts.length ∧ 2 ≤ v.texts.length then (⟨v.texts, k, h.1⟩, .selected true)
    else (v, .selected false)

def after (v : Versions) (revisions : List Revision) : Versions := revisions.foldl (fun v r => (v.revise r).1) v

/-- The version that a revision gives a text to, and the text. -/
def gift? (v : Versions) : Revision → Option (Nat × String)
  | .setText text => some (v.current, text)
  | .addSwipe text => some (v.texts.length, text)
  | .selectSwipe _ => none

/-- The texts that the revisions give, each with the version that it is given to. -/
def gifts (v : Versions) : List Revision → List (Nat × String)
  | [] => []
  | r :: rest => (v.gift? r).toList ++ (v.revise r).1.gifts rest

end Versions

/-- The text that a version was last given. -/
def lastGiven? (k : Nat) (given : List (Nat × String)) : Option String := given.reverse.lookup k

theorem lastGiven?_append (k : Nat) (given later : List (Nat × String)) :
    lastGiven? k (given ++ later) = (lastGiven? k later).or (lastGiven? k given) := by
  rw [lastGiven?, List.reverse_append, List.lookup_append, lastGiven?, lastGiven?]

namespace Versions

theorem getElem?_current (v : Versions) : v.texts[v.current]? = some v.text := List.getElem?_eq_getElem v.current_lt

theorem text_eq_iff {v : Versions} {text : String} : v.text = text ↔ v.texts[v.current]? = some text := by
  rw [getElem?_current, Option.some.injEq]

theorem getElem?_revise (v : Versions) (r : Revision) (k : Nat) :
    (v.revise r).1.texts[k]? = (lastGiven? k (v.gift? r).toList).or v.texts[k]? := by
  cases r with
  | setText text =>
    have hlt := v.current_lt
    by_cases hk : v.current = k
    · subst hk
      simp [revise, gift?, lastGiven?, hlt]
    · have hne : (k == v.current) = false := beq_false_of_ne (Ne.symm hk)
      simp [revise, gift?, lastGiven?, List.lookup_cons, hne, List.getElem?_set_ne hk]
  | addSwipe text =>
    by_cases hk : v.texts.length = k
    · subst hk
      simp [revise, gift?, lastGiven?]
    · have hne : (k == v.texts.length) = false := beq_false_of_ne (Ne.symm hk)
      simp only [revise, gift?, lastGiven?, Option.toList_some, List.reverse_singleton, List.lookup_cons, hne,
        List.lookup_nil, Option.none_or]
      rw [List.getElem?_append]
      split
      · rfl
      · rw [List.getElem?_eq_none (by simp; omega), List.getElem?_eq_none (by omega)]
  | selectSwipe k' =>
    simp only [revise, gift?, Option.toList_none, lastGiven?, List.reverse_nil, List.lookup_nil, Option.none_or]
    split <;> rfl

/-- Through all revisions each version keeps the text that it was last given. -/
theorem getElem?_after (v : Versions) (revisions : List Revision) (k : Nat) :
    (v.after revisions).texts[k]? = (lastGiven? k (v.gifts revisions)).or v.texts[k]? := by
  induction revisions generalizing v with
  | nil => rfl
  | cons r rest ih =>
    have hstep : (v.after (r :: rest)).texts[k]? = (((v.revise r).1).after rest).texts[k]? := rfl
    rw [hstep, ih, gifts, lastGiven?_append, getElem?_revise, Option.or_assoc]

end Versions

namespace Message

/-- A message holds versions: a single one as its text, more than one as its swipes. -/
structure Holds (m : Message) (v : Versions) : Prop where
  text_eq : m.text = v.text
  swipes_cases : m.swipes = [] ∧ m.swipeId = none ∧ v.texts = [m.text] ∨
    m.swipes = v.texts ∧ m.swipeId = some v.current ∧ 2 ≤ v.texts.length

variable {m : Message} {v : Versions}

theorem Holds.listed (h : m.Holds v) : (if m.swipes.isEmpty then [m.text] else m.swipes) = v.texts := by
  rcases h.swipes_cases with ⟨hs, -, ht⟩ | ⟨hs, -, htwo⟩
  · rw [hs, ht]
    rfl
  · have hne : ¬m.swipes.isEmpty = true := by
      rw [hs, List.isEmpty_iff, ← List.length_eq_zero_iff]
      omega
    rw [if_neg hne, hs]

theorem Holds.activeText_eq (h : m.Holds v) : m.activeText = m.text := by
  rcases h.swipes_cases with ⟨hs, -, -⟩ | ⟨hs, hid, -⟩
  · rw [activeText, hs, List.getElem?_nil, Option.getD_none]
  · rw [activeText, activeIndex, hs, hid, Option.getD_some, v.getElem?_current, Option.getD_some, h.text_eq]

theorem Holds.setText (h : m.Holds v) (text : String) : (m.setText text).Holds (v.revise (.setText text)).1 := by
  have hcurrent := v.current_lt
  refine ⟨(Versions.text_eq_iff.mpr (List.getElem?_set_self hcurrent)).symm, ?_⟩
  rcases h.swipes_cases with ⟨hs, hid, ht⟩ | ⟨hs, hid, htwo⟩
  · have hfirst : v.current = 0 := by
      rw [ht, List.length_singleton] at hcurrent
      omega
    refine Or.inl ⟨by rw [Message.setText, hs, List.set_nil], hid, ?_⟩
    simp only [Versions.revise, ht, hfirst, List.set_cons_zero, Message.setText]
  · have hindex : m.activeIndex = v.current := by rw [activeIndex, hid, Option.getD_some]
    refine Or.inr ⟨by simp only [Message.setText, Versions.revise, hs, hindex], hid, ?_⟩
    simpa [Versions.revise] using htwo

theorem Holds.addSwipe (h : m.Holds v) (text : String) : (m.addSwipe text).Holds (v.revise (.addSwipe text)).1 := by
  have hcurrent := v.current_lt
  refine ⟨(Versions.text_eq_iff.mpr (by simp [Versions.revise, Message.addSwipe])).symm, Or.inr ?_⟩
  simp only [Message.addSwipe, h.listed, Versions.revise, List.length_append, List.length_singleton, true_and]
  exact ⟨rfl, by omega⟩

theorem activeIndex_addSwipe (h : m.Holds v) (text : String) : (m.addSwipe text).activeIndex = v.texts.length := by
  simp only [Message.addSwipe, activeIndex, h.listed, Option.getD_some, List.length_append, List.length_singleton,
    Nat.add_sub_cancel]

/-- A swipe is there if it is one of several versions. -/
theorem Holds.lt_iff {k : Nat} (h : m.Holds v) :
    k < m.swipes.length ↔ k < v.texts.length ∧ 2 ≤ v.texts.length := by
  rcases h.swipes_cases with ⟨hs, -, ht⟩ | ⟨hs, -, htwo⟩
  · simp [hs, ht]
  · rw [hs, and_iff_left htwo]

theorem Holds.selectSwipe {k : Nat} (h : m.Holds v) (hk : k < v.texts.length) (htwo : 2 ≤ v.texts.length) :
    ∃ m', m.selectSwipe? k = some m' ∧ m'.Holds ⟨v.texts, k, hk⟩ := by
  rcases h.swipes_cases with ⟨-, -, ht⟩ | ⟨hs, -, -⟩
  · rw [ht, List.length_singleton] at htwo
    omega
  · have hfound : m.swipes[k]? = some (v.texts.get ⟨k, hk⟩) := by
      rw [hs]
      exact List.getElem?_eq_getElem hk
    have hselect : m.selectSwipe? k = some { m with text := v.texts.get ⟨k, hk⟩, swipeId := some k } := by
      rw [selectSwipe?, hfound, Option.map_some]
    exact ⟨_, hselect, rfl, Or.inr ⟨hs, rfl, htwo⟩⟩

theorem Holds.selectSwipe?_eq_none {k : Nat} (h : m.Holds v) (hk : ¬(k < v.texts.length ∧ 2 ≤ v.texts.length)) :
    m.selectSwipe? k = none := by
  have hmissing : m.swipes[k]? = none := List.getElem?_eq_none (Nat.le_of_not_lt fun hlt => hk (h.lt_iff.mp hlt))
  rw [selectSwipe?, hmissing, Option.map_none]

/-- A revision does to the message what it does to the versions that the message holds, and answers the same. -/
theorem holds_revise (h : m.Holds v) (r : Revision) :
    (m.revise r).1.Holds (v.revise r).1 ∧ (m.revise r).2 = (v.revise r).2 := by
  cases r with
  | setText text => exact ⟨h.setText text, rfl⟩
  | addSwipe text =>
    simp only [revise, pushSwipe_eq]
    exact ⟨h.addSwipe text, congrArg Answer.added (activeIndex_addSwipe h text)⟩
  | selectSwipe k =>
    by_cases hk : k < v.texts.length ∧ 2 ≤ v.texts.length
    · obtain ⟨m', hselect, hholds⟩ := h.selectSwipe hk.1 hk.2
      simp only [revise, hselect, Versions.revise, dif_pos hk, and_true]
      exact hholds
    · simp only [revise, h.selectSwipe?_eq_none hk, Versions.revise, dif_neg hk, and_true]
      exact h

theorem holds_after (h : m.Holds v) (revisions : List Revision) : (m.after revisions).Holds (v.after revisions) := by
  induction revisions generalizing m v with
  | nil => exact h
  | cons r rest ih => exact ih (holds_revise h r).1

theorem holds_plain (id : Nat) (role : Role) (text : String) : (plain id role text).Holds (.single text) :=
  ⟨rfl, Or.inl ⟨rfl, rfl, rfl⟩⟩

/-- What can be relied on in a message whose versions were given the texts, each with the number of its version. -/
structure Keeps (m : Message) (v : Versions) (given : List (Nat × String)) : Prop where
  /-- Both copies of the current text are the text of the current version. -/
  text_eq : m.text = m.activeText ∧ m.text = v.text
  swipes_cases : m.swipes = [] ∧ m.swipeId = none ∨ 2 ≤ m.swipes.length ∧ ∃ k < m.swipes.length, m.swipeId = some k
  answer_eq : ∀ r, (m.revise r).2 = (v.revise r).2
  added : ∀ text, (m.revise (.addSwipe text)).2 = .added (max 1 m.swipes.length) ∧
    (m.revise (.addSwipe text)).1.activeText = text
  refused : ∀ k, (m.revise (.selectSwipe k)).2 = .selected false → (m.revise (.selectSwipe k)).1 = m
  found_iff : ∀ k, (m.revise (.selectSwipe k)).2 = .selected true ↔ k < m.swipes.length
  selected : ∀ k, (m.revise (.selectSwipe k)).2 = .selected true →
    lastGiven? k given = some (m.revise (.selectSwipe k)).1.activeText
  lastGiven?_eq : ∀ k, lastGiven? k given = v.texts[k]?

theorem revise_selectSwipe_cases (m : Message) (k : Nat) :
    k < m.swipes.length ∧ (m.revise (.selectSwipe k)).2 = .selected true ∨
      ¬k < m.swipes.length ∧ m.revise (.selectSwipe k) = (m, .selected false) := by
  by_cases hk : k < m.swipes.length
  · exact Or.inl ⟨hk, by simp [revise, selectSwipe?, hk]⟩
  · exact Or.inr ⟨hk, by simp [revise, selectSwipe?, hk]⟩

theorem found_iff (m : Message) (k : Nat) : (m.revise (.selectSwipe k)).2 = .selected true ↔ k < m.swipes.length := by
  rcases m.revise_selectSwipe_cases k with ⟨hk, hfound⟩ | ⟨hk, hmissing⟩
  · exact iff_of_true hfound hk
  · exact iff_of_false (by simp [hmissing]) hk

theorem Holds.length_eq (h : m.Holds v) : v.texts.length = max 1 m.swipes.length := by
  rcases h.swipes_cases with ⟨hs, -, ht⟩ | ⟨hs, -, htwo⟩
  · rw [hs, ht]
    rfl
  · rw [hs]
    omega

theorem Holds.keeps {given : List (Nat × String)} (h : m.Holds v) (hg : ∀ k, lastGiven? k given = v.texts[k]?) :
    m.Keeps v given where
  text_eq := ⟨h.activeText_eq.symm, h.text_eq⟩
  swipes_cases := by
    refine h.swipes_cases.imp (fun hc => ⟨hc.1, hc.2.1⟩) ?_
    rintro ⟨hs, hid, htwo⟩
    rw [hs]
    exact ⟨htwo, v.current, v.current_lt, hid⟩
  answer_eq r := (holds_revise h r).2
  added text := by
    obtain ⟨hholds, hanswer⟩ := holds_revise h (.addSwipe text)
    refine ⟨hanswer.trans (congrArg Answer.added h.length_eq), ?_⟩
    rw [hholds.activeText_eq, hholds.text_eq, Versions.text_eq_iff]
    simp [Versions.revise]
  refused k hanswer := by
    rcases m.revise_selectSwipe_cases k with ⟨-, hfound⟩ | ⟨-, hmissing⟩
    · exact absurd (hfound.symm.trans hanswer) (by simp)
    · rw [hmissing]
  found_iff := m.found_iff
  selected k hanswer := by
    have hk := h.lt_iff.mp ((m.found_iff k).mp hanswer)
    obtain ⟨hholds, -⟩ := holds_revise h (.selectSwipe k)
    rw [hholds.activeText_eq, hholds.text_eq, hg]
    simp only [Versions.revise, dif_pos hk]
    exact List.getElem?_eq_getElem hk.1
  lastGiven?_eq := hg

/-- A new message that has gone through any revisions is a list of versions with one that is current: its two copies of
the current text agree, a new swipe gets the number of versions so far and becomes current, a swipe that is missing is
refused and changes nothing, and one that is selected brings back the text that its version was last given. -/
theorem keeps_versions (id : Nat) (role : Role) (text : String) (revisions : List Revision) :
    ((plain id role text).after revisions).Keeps ((Versions.single text).after revisions)
      ((0, text) :: (Versions.single text).gifts revisions) := by
  apply (holds_after (holds_plain id role text) revisions).keeps
  intro k
  have hfirst : lastGiven? k [(0, text)] = (Versions.single text).texts[k]? := by
    cases k <;> simp [lastGiven?, Versions.single, List.lookup_cons]
  rw [Versions.getElem?_after, ← hfirst]
  exact lastGiven?_append k [(0, text)] _

/-- Two swipes are added to a message, and its first text is changed in between. -/
def innRevisions : List Revision :=
  [.addSwipe "The inn is lit.", .selectSwipe 0, .setText "The inn burns.", .addSwipe "The inn is shut.", .selectSwipe 1]

theorem keeps_versions_inn :
    (((plain 0 .assistant "The inn is dark.").after innRevisions).revise (.selectSwipe 0)).2 = .selected true ∧
    (((plain 0 .assistant "The inn is dark.").after innRevisions).revise (.selectSwipe 0)).1.activeText =
      "The inn burns." := by
  have hkeeps := keeps_versions 0 .assistant "The inn is dark." innRevisions
  have hfound := (hkeeps.found_iff 0).mpr (by decide)
  have hlast : lastGiven? 0 ((0, "The inn is dark.") :: (Versions.single "The inn is dark.").gifts innRevisions) =
      some "The inn burns." := by decide
  exact ⟨hfound, Option.some.inj ((hkeeps.selected 0 hfound).symm.trans hlast)⟩

end Message

end Chronicle
