import Worksheet.Proofs.Sheet.Entering

/-!
# Restoring replays the saved lines

Restoring takes the cells of a sheet away and enters the lines of a saved sheet into what is left.
That is a fresh sheet of the same settings, but for whether it counts as modified; no entry looks at
this, and an accepted one sets it. So nothing of what the sheet held shows in the result.

* `enter_setModified`: an entry does the same whether or not the sheet was modified.
* `restore_eq`: restoring is entering the saved lines into a fresh sheet.
* `replay_eq_error_iff`: the refusal is that of the first entry which is not accepted.
* `restoring_is_replaying`: all of this, for the text of a saved sheet.
-/

namespace Worksheet

/-- What an operation makes of a sheet, as not modified, or why it was refused. -/
def Outcome.settled (o : Outcome Unit) : Except Refusal Sheet :=
  o.result.map fun () => { o.sheet with modified := false }

namespace Sheet

/-- A sheet of the same settings without cells. -/
def fresh (s : Sheet) : Sheet := { policy := s.policy, version := s.version }

/-- The sheet takes the entries before this one, and refuses it for this reason. -/
inductive Refuses : Sheet → List SaveFile.Entry → SaveFile.Entry → Refusal → Prop
  | first {s : Sheet} {entry : SaveFile.Entry} {entries : List SaveFile.Entry} {e : Refusal}
      (h : (s.enter (.ofSaved entry)).result = .error e) : Refuses s (entry :: entries) entry e
  | later {s t : Sheet} {taken entry : SaveFile.Entry} {entries : List SaveFile.Entry}
      {order : List String} {e : Refusal} (h : s.enter (.ofSaved taken) = ⟨t, .ok order⟩)
      (hrest : Refuses t entries entry e) : Refuses s (taken :: entries) entry e

/-- What the text of a saved sheet makes of a sheet, told by a fresh one of the same settings. -/
inductive Replays (s : Sheet) (text : String) : Outcome Unit → Prop
  /-- A line of the text has a fault. -/
  | unread {fault : SaveFile.LineFault} (hread : SaveFile.read text = .error fault) :
      Replays s text ⟨s, .error (.savedLine fault)⟩
  /-- The saved sheet is of another version. -/
  | otherVersion {file : SaveFile} (hread : SaveFile.read text = .ok file)
      (hversion : file.version ≠ s.version) :
      Replays s text ⟨s, .error (.otherVersion s.version file.version)⟩
  /-- The fresh sheet refuses an entry. -/
  | refused {file : SaveFile} {entry : SaveFile.Entry} {e : Refusal}
      (hread : SaveFile.read text = .ok file) (hversion : file.version = s.version)
      (hrefuses : Refuses s.fresh file.entries entry e) :
      Replays s text ⟨s, .error (.savedEntry entry.line entry.name e)⟩
  /-- The fresh sheet takes all entries. -/
  | accepted {file : SaveFile} {u : Sheet} (hread : SaveFile.read text = .ok file)
      (hversion : file.version = s.version)
      (henter : s.fresh.enterAll (file.entries.map .ofSaved) = some u) :
      Replays s text ⟨{ u with modified := false }, .ok ()⟩

variable {s t u : Sheet} {entry : Entry} {saved : List SaveFile.Entry} {file : SaveFile}
  {text : String} {o : Outcome Unit} {e : Refusal}

theorem blank_fresh (s : Sheet) : s.fresh.Blank := ⟨rfl, rfl⟩

theorem fresh_eq (hpolicy : t.policy = s.policy) (hversion : t.version = s.version) :
    t.fresh = s.fresh := by
  rw [fresh, hpolicy, hversion, fresh]

/-! ## Whether the sheet was modified -/

/-- Both outcomes are the same sheet with the same order, or the same refusal. -/
def SameEntry (o o' : Outcome (List String)) : Prop :=
  (∃ t order, o = ⟨t, .ok order⟩ ∧ o' = ⟨t, .ok order⟩) ∨
    ∃ v v' e, o = ⟨v, .error e⟩ ∧ o' = ⟨v', .error e⟩

theorem put_setModified (s : Sheet) (modified : Bool) (name : String) (k : Contents) :
    SameEntry (put { s with modified } name k) (s.put name k) := by
  unfold put
  dsimp only
  split
  · exact Or.inr ⟨_, _, _, rfl, rfl⟩
  · split
    · exact Or.inr ⟨_, _, _, rfl, rfl⟩
    · exact Or.inl ⟨_, _, rfl, rfl⟩

/-- **An entry does the same** whether or not the sheet was modified. -/
theorem enter_setModified (s : Sheet) (modified : Bool) (entry : Entry) :
    SameEntry (enter { s with modified } entry) (s.enter entry) := by
  have hrequested : requested { s with modified } entry = s.requested entry := by
    cases entry <;> rfl
  cases hreq : s.requested entry with
  | error e =>
    rw [enter_of_error (hrequested.trans hreq), enter_of_error hreq]
    exact Or.inr ⟨_, _, e, rfl, rfl⟩
  | ok request =>
    rw [enter_of_ok (hrequested.trans hreq), enter_of_ok hreq]
    exact put_setModified s modified request.1 request.2

/-- Only the first entry meets the flag as it was, so the run is the same, up to that flag. -/
theorem settled_replay (s : Sheet) (modified : Bool) (saved : List SaveFile.Entry) :
    (replay { s with modified } saved).settled = (s.replay saved).settled := by
  cases saved with
  | nil => rfl
  | cons entry saved =>
    rw [replay, replay, enterSaved_eq, enterSaved_eq]
    obtain ⟨t, order, h, h'⟩ | ⟨v, v', e, h, h'⟩ := enter_setModified s modified (.ofSaved entry)
    · rw [h, h']
    · rw [h, h']
      rfl

/-! ## Replaying -/

/-- A saved line names the canonical form of its name. -/
theorem canonical?_of_names {policy : NamePolicy} {saved : SaveFile.Entry}
    (h : Names policy (.ofSaved saved) name) : policy.canonical? saved.name = some name := by
  obtain ⟨k, hk⟩ := h
  obtain ⟨⟨raw, hraw, hname⟩, -⟩ := requested_eq_ok_iff.mp hk
  rw [name?_ofSaved] at hraw
  obtain rfl := Option.some.inj hraw
  exact resolve_eq_ok_iff.mp hname

theorem replay_eq_ok_iff :
    s.replay saved = ⟨t, .ok ()⟩ ↔ s.enterAll (saved.map .ofSaved) = some t := by
  induction saved generalizing s with
  | nil =>
    rw [replay, List.map_nil, enterAll, Outcome.mk.injEq, Option.some.injEq]
    exact and_iff_left rfl
  | cons entry saved ih =>
    rw [replay, List.map_cons, enterAll, enterSaved_eq]
    obtain ⟨u, e | order⟩ := s.enter (.ofSaved entry)
    · simp
    · exact ih

theorem settled_eq_ok_iff :
    o.settled = .ok t ↔ ∃ u, o = ⟨u, .ok ()⟩ ∧ t = { u with modified := false } := by
  obtain ⟨u, e | ⟨⟩⟩ := o
  · simp [Outcome.settled, Except.map]
  · simp [Outcome.settled, Except.map, eq_comm]

theorem settled_eq_error_iff : o.settled = .error e ↔ o.result = .error e := by
  obtain ⟨u, e | ⟨⟩⟩ := o
  · simp [Outcome.settled, Except.map]
  · simp [Outcome.settled, Except.map]

/-- **Restoring is entering the saved lines into a fresh sheet.** -/
theorem restore_eq (s : Sheet) (file : SaveFile) : s.restore file =
    if file.version = s.version then
      match (s.fresh.replay file.entries).settled with
      | .ok t => ⟨t, .ok ()⟩
      | .error e => ⟨s, .error e⟩
    else ⟨s, .error (.otherVersion s.version file.version)⟩ := by
  have hsettled : (s.cleared.replay file.entries).settled =
      (s.fresh.replay file.entries).settled := settled_replay s.fresh s.modified file.entries
  rw [← hsettled]
  obtain ⟨hpolicy, hversion⟩ := replay_fixed s.cleared file.entries
  unfold restore
  split
  · split
    · rename_i v hv
      rw [hv]
      rfl
    · rename_i v e hv
      -- What the entries before the refused one did to the cells is put back.
      rw [hv] at hpolicy hversion ⊢
      rw [hpolicy, hversion]
      rfl
  · rfl

theorem refuses_cons_iff {first entry : SaveFile.Entry} :
    Refuses s (first :: saved) entry e ↔
      (entry = first ∧ (s.enter (.ofSaved first)).result = .error e) ∨
        ∃ t order, s.enter (.ofSaved first) = ⟨t, .ok order⟩ ∧ Refuses t saved entry e := by
  constructor
  · rintro (h | ⟨h, hrest⟩)
    · exact Or.inl ⟨rfl, h⟩
    · exact Or.inr ⟨_, _, h, hrest⟩
  · rintro (⟨rfl, h⟩ | ⟨t, order, h, hrest⟩)
    · exact .first h
    · exact .later h hrest

/-- **The refusal is that of the first entry** which is not accepted. -/
theorem replay_eq_error_iff : (s.replay saved).result = .error e ↔ ∃ entry reason,
    Refuses s saved entry reason ∧ e = .savedEntry entry.line entry.name reason := by
  induction saved generalizing s with
  | nil =>
    refine iff_of_false (fun h => by contradiction) ?_
    rintro ⟨entry, reason, hrefuses, -⟩
    cases hrefuses
  | cons first saved ih =>
    rw [replay, enterSaved_eq]
    simp only [refuses_cons_iff]
    obtain ⟨t, reason | order⟩ := s.enter (.ofSaved first)
    · simp [eq_comm]
    · simpa using ih

theorem settled_replay_eq_ok_iff : (s.replay saved).settled = .ok t ↔
    ∃ u, s.enterAll (saved.map .ofSaved) = some u ∧ t = { u with modified := false } := by
  simp only [settled_eq_ok_iff, replay_eq_ok_iff]

theorem settled_replay_eq_error_iff : (s.replay saved).settled = .error e ↔ ∃ entry reason,
    Refuses s saved entry reason ∧ e = .savedEntry entry.line entry.name reason :=
  settled_eq_error_iff.trans replay_eq_error_iff

/-! ## Restoring -/

theorem replays_restoreText (s : Sheet) (text : String) :
    Replays s text (s.restoreText text) := by
  unfold restoreText
  split
  · rename_i file hread
    rw [restore_eq]
    split
    · rename_i hversion
      split
      · rename_i t ht
        obtain ⟨u, henter, rfl⟩ := settled_replay_eq_ok_iff.mp ht
        exact .accepted hread hversion henter
      · rename_i e he
        obtain ⟨entry, reason, hrefuses, rfl⟩ := settled_replay_eq_error_iff.mp he
        exact .refused hread hversion hrefuses
    · rename_i hversion
      exact .otherVersion hread hversion
  · rename_i fault hread
    exact .unread hread

theorem Replays.restoreText_eq (h : Replays s text o) : s.restoreText text = o := by
  unfold restoreText
  cases h with
  | unread hread => rw [hread]
  | otherVersion hread hversion =>
    rw [hread]
    dsimp only
    rw [restore_eq, if_neg hversion]
  | refused hread hversion hrefuses =>
    rw [hread]
    dsimp only
    rw [restore_eq, if_pos hversion, settled_replay_eq_error_iff.mpr ⟨_, _, hrefuses, rfl⟩]
  | accepted hread hversion henter =>
    rw [hread]
    dsimp only
    rw [restore_eq, if_pos hversion, settled_replay_eq_ok_iff.mpr ⟨_, henter, rfl⟩]

/-- Sheets that differ in whether they are modified only. -/
theorem unmodified_eq (hpolicy : s.policy = t.policy) (hversion : s.version = t.version)
    (hcells : s.cells = t.cells) (hdependencies : s.dependencies = t.dependencies) :
    ({ s with modified := false } : Sheet) = { t with modified := false } :=
  (Sheet.mk.injEq ..).mpr ⟨hpolicy, hversion, hcells, hdependencies, rfl⟩

/-- **A text is accepted** if it reads as a saved sheet of the version whose entries a fresh sheet
takes. -/
theorem restoreText_eq_ok_iff : s.restoreText text = ⟨t, .ok ()⟩ ↔
    ∃ file u, SaveFile.read text = .ok file ∧ file.version = s.version ∧
      s.fresh.enterAll (file.entries.map .ofSaved) = some u ∧ t = { u with modified := false } := by
  constructor
  · intro h
    have hreplays : Replays s text ⟨t, .ok ()⟩ := h ▸ replays_restoreText s text
    cases hreplays with
    | accepted hread hversion henter => exact ⟨_, _, hread, hversion, henter, rfl⟩
  · rintro ⟨file, u, hread, hversion, henter, rfl⟩
    exact (Replays.accepted hread hversion henter).restoreText_eq

/-- Sheets of the same settings take the same texts, make the same of them, and refuse the others
for the same reasons. -/
theorem Replays.of_same (h : Replays s text o) (hpolicy : t.policy = s.policy)
    (hversion : t.version = s.version) :
    (o.result = .ok () ∧ Replays t text o) ∨
      ∃ e, o.result = .error e ∧ Replays t text ⟨t, .error e⟩ := by
  have hfresh := fresh_eq hpolicy hversion
  cases h with
  | unread hread => exact Or.inr ⟨_, rfl, .unread hread⟩
  | otherVersion hread hother =>
    rw [← hversion] at hother ⊢
    exact Or.inr ⟨_, rfl, .otherVersion hread hother⟩
  | refused hread htag hrefuses =>
    exact Or.inr ⟨_, rfl, .refused hread (htag.trans hversion.symm) (hfresh ▸ hrefuses)⟩
  | accepted hread htag henter =>
    exact Or.inl ⟨rfl, .accepted hread (htag.trans hversion.symm) (hfresh ▸ henter)⟩

theorem restoreText_of_same (text : String) (hpolicy : t.policy = s.policy)
    (hversion : t.version = s.version) :
    (t.restoreText text).result = (s.restoreText text).result ∧
      ∀ u, s.restoreText text = ⟨u, .ok ()⟩ → t.restoreText text = ⟨u, .ok ()⟩ := by
  obtain ⟨haccepted, ht⟩ | ⟨e, hrefused, ht⟩ :=
    (replays_restoreText s text).of_same hpolicy hversion
  · rw [ht.restoreText_eq]
    exact ⟨rfl, fun u hu => hu⟩
  · rw [ht.restoreText_eq, hrefused]
    refine ⟨rfl, fun u hu => ?_⟩
    rw [hu] at hrefused
    contradiction

/-- What restoring leaves under a name is what the last entry for it asks for. -/
theorem keeps_restoreText (hread : SaveFile.read text = .ok file)
    (h : s.restoreText text = ⟨t, .ok ()⟩) :
    (∀ entry, IsLast s.policy (file.entries.map .ofSaved) entry → t.Keeps s.policy entry) ∧
      ∀ n, (∀ entry ∈ file.entries.map .ofSaved, ¬ Names s.policy entry n) →
        t.cells.contents n = none := by
  obtain ⟨found, u, hfound, -, henter, rfl⟩ := restoreText_eq_ok_iff.mp h
  obtain rfl := Except.ok.inj (hfound.symm.trans hread)
  have hfresh : s.fresh.Consistent := s.blank_fresh.consistent
  refine ⟨fun entry hlast => ?_, fun n hnot => ?_⟩
  · have hkept : u.Keeps s.policy entry := hfresh.keeps_enterAll henter hlast
    exact hkept
  · exact (hfresh.contents_enterAll henter hnot).trans (s.blank_fresh.contents n)

/-- **Restoring is replaying the text into a fresh sheet**: its outcome is the one that a fresh
sheet of the same settings tells, so it is the same whatever the sheet held. A refused entry is
reported with its line, its name and what the fresh sheet has against it; and where no entry is
refused, of several for one cell the last one stands. -/
theorem restoring_is_replaying (s : Sheet) (text : String) :
    (∀ o, s.restoreText text = o ↔ Replays s text o) ∧
      (∀ t : Sheet, t.policy = s.policy → t.version = s.version →
        (t.restoreText text).result = (s.restoreText text).result ∧
          ∀ u, s.restoreText text = ⟨u, .ok ()⟩ → t.restoreText text = ⟨u, .ok ()⟩) ∧
      (∀ file entry e, SaveFile.read text = .ok file → file.version = s.version →
        Refuses s.fresh file.entries entry e → ∃ r, (s.restoreText text).result = .error r ∧
          r.message = s!"Parse error at line {entry.line}: {entry.name}: {e.message}") ∧
      ∀ file t, SaveFile.read text = .ok file → s.restoreText text = ⟨t, .ok ()⟩ →
        (∀ entry, IsLast s.policy (file.entries.map .ofSaved) entry → t.Keeps s.policy entry) ∧
          ∀ n, (∀ entry ∈ file.entries.map .ofSaved, ¬ Names s.policy entry n) →
            t.cells.contents n = none := by
  refine ⟨fun o => ⟨?_, Replays.restoreText_eq⟩, fun t => restoreText_of_same text,
    fun file entry e hread hversion hrefuses => ?_, fun file t => keeps_restoreText⟩
  · rintro rfl
    exact replays_restoreText s text
  · have hrefused := Replays.refused hread hversion hrefuses
    exact ⟨_, congrArg Outcome.result hrefused.restoreText_eq, rfl⟩

/-- A saved sheet that fills `a` twice. With what it first has there, `c` would close a cycle. -/
def refilling : String := "@version default\na: =c\nb: =a+1\na: \"x\"\nc: =b\n"

/-- A saved sheet whose last entry closes a cycle. -/
def closing : String := "@version default\na: 1\nb: =a\n\na: =b\n"

theorem demo_replays_texts :
    (∃ t, Replays demo refilling ⟨t, .ok ()⟩ ∧ restoreText {} refilling = ⟨t, .ok ()⟩ ∧
        t.Keeps demo.policy (.text "a" "x")) ∧
      Replays demo closing
        ⟨demo, .error (.savedEntry 5 "a" (.closesCycle "a" ⟨["a", "b", "a"]⟩))⟩ := by
  constructor
  · obtain ⟨hreplays, hsame, -, hkeeps⟩ := restoring_is_replaying demo refilling
    obtain ⟨hpolicy, hversion⟩ := performAll_fixed {}
      [.enter (.input "b" "=a+1"), .enter (.input "a" "2")]
    have haccepted : (demo.restoreText refilling).result = .ok () := by decide +kernel
    have hread : SaveFile.read refilling = .ok ⟨"default", [⟨2, "a", .input "=c"⟩,
        ⟨3, "b", .input "=a+1"⟩, ⟨4, "a", .text "x"⟩, ⟨5, "c", .input "=b"⟩]⟩ := by
      decide +kernel
    have htext : demo.restoreText refilling = ⟨(demo.restoreText refilling).sheet, .ok ()⟩ := by
      rw [← haccepted]
    refine ⟨_, (hreplays _).mp htext, (hsame {} hpolicy.symm hversion.symm).2 _ htext,
      (hkeeps _ _ hread htext).1 _
        ⟨[.input "a" "=c", .input "b" "=a+1"], [.input "c" "=b"], rfl, ?_⟩⟩
    intro later hlater n ha hc
    obtain rfl := List.mem_singleton.mp hlater
    have hna : demo.policy.canonical? "a" = some n := by
      exact canonical?_of_names (show Names demo.policy (.ofSaved ⟨4, "a", .text "x"⟩) n from ha)
    have hnc : demo.policy.canonical? "c" = some n := by
      exact canonical?_of_names (show Names demo.policy (.ofSaved ⟨5, "c", .input "=b"⟩) n from hc)
    have hne : demo.policy.canonical? "a" ≠ demo.policy.canonical? "c" := by decide +kernel
    exact hne (hna.trans hnc.symm)
  · have hrefused : (demo.restoreText closing).result =
        .error (.savedEntry 5 "a" (.closesCycle "a" ⟨["a", "b", "a"]⟩)) := by decide +kernel
    obtain ⟨t, -, ht⟩ | ⟨e, he⟩ := restoreText_cases demo closing
    · rw [ht] at hrefused
      contradiction
    · rw [he] at hrefused
      obtain rfl := Except.error.inj hrefused
      exact ((restoring_is_replaying demo closing).1 _).mp he

end Sheet

end Worksheet
