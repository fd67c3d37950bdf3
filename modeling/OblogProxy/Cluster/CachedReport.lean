import OblogProxy.Cluster.IncrementalGtids
import OblogProxy.Core.Runs

/-!
# Reports from memory and from the file

A report that begins behind the first checkpoint in memory is answered from memory, any
other one from the file.  A checkpoint is saved in both places, but purging and the clean-up
of heartbeats write only the file again.
-/

namespace OblogProxy.Cluster

open Blocks Gtid Lines Recovery Runs

structure ReportHistory where
  manager : GtidManager := {}
  saved : List GtidSeq := []

inductive HistoryStep
  | save (gtidSeq : GtidSeq)
  | purge (lastGtidPurged : ℕ)
  | clearOutdated (currentCheckpoint : ℕ)

namespace ReportHistory

def step (config : GtidConfig) (history : ReportHistory) : HistoryStep → ReportHistory
  | .save gtidSeq =>
    { manager := history.manager.saveGtidSeq config gtidSeq
      saved := history.saved ++ [gtidSeq] }
  | .purge lastGtidPurged =>
    { history with manager := history.manager.purgeGtidBefore lastGtidPurged }
  | .clearOutdated currentCheckpoint =>
    { history with
      manager := history.manager.clearOutdatedHeartbeatGtidSeqs config currentCheckpoint }

/-- Commit versions do not decrease, and a checkpoint fits its line. -/
def Allows (history : ReportHistory) : HistoryStep → Prop
  | .save gtidSeq => gtidSeq.Readable ∧
      ∀ earlier ∈ history.saved, earlier.commitVersionStart ≤ gtidSeq.commitVersionStart
  | _ => True

end ReportHistory

end OblogProxy.Cluster

namespace OblogProxy.Recovery.GtidManager

open Blocks Gtid

/-- What `get_instance_incr_gtids_string` would return from the file. -/
def incrGtidsOfFile (limit : ℕ) (manager : GtidManager) (timestamp : ℕ) : Text :=
  (incrLoop limit timestamp manager.fileEntries 0).dropLast

def ReportsAlike (limit : ℕ) (manager : GtidManager) : Prop :=
  ∀ front ∈ manager.gtidSeqSet.head?, ∀ timestamp, front.1 ≤ timestamp →
    manager.getInstanceIncrGtidsString limit timestamp = manager.incrGtidsOfFile limit timestamp

/-- In each second behind the front of the memory the first lines, one more than the limit,
are the same. -/
def AgreeBehind (limit : ℕ) (manager : GtidManager) (entries others : List (ℕ × Text)) : Prop :=
  ∀ front ∈ manager.gtidSeqSet.head?, ∀ value, front.1 < value →
    (block Prod.fst entries value).take (limit + 1) =
      (block Prod.fst others value).take (limit + 1)

end OblogProxy.Recovery.GtidManager

namespace OblogProxy.Cluster

open Blocks Gtid Lines Recovery Runs

namespace ReportHistory

/-- Purging and the clean-up leave the lines in the file that a report from memory may
contain. -/
def KeepsReported (config : GtidConfig) (limit : ℕ) (history : ReportHistory)
    (next : HistoryStep) : Prop :=
  match next with
  | .save _ => True
  | _ => history.manager.AgreeBehind limit history.manager.fileEntries
      (history.step config next).manager.fileEntries

end ReportHistory

def EntryOf (saved : List GtidSeq) (entry : ℕ × Text) : Prop :=
  ∃ gtidSeq ∈ saved, gtidSeq.Readable ∧ entry = gtidEntry gtidSeq

section Texts

variable {saved : List GtidSeq}

theorem EntryOf.mono {more : List GtidSeq} {entry : ℕ × Text} (hentry : EntryOf saved entry)
    (hmore : ∀ gtidSeq ∈ saved, gtidSeq ∈ more) : EntryOf more entry := by
  obtain ⟨gtidSeq, hmem, hreadable, rfl⟩ := hentry
  exact ⟨gtidSeq, hmore gtidSeq hmem, hreadable, rfl⟩

/-- Where a line ends can be told from the text behind its third separator. -/
theorem serialize_append_inj {left right : GtidSeq} (hleft : left.Readable)
    (hright : right.Readable) {leftRest rightRest : Text}
    (heq : left.serialize ++ '|' :: leftRest = right.serialize ++ '|' :: rightRest) :
    left.serialize = right.serialize ∧ leftRest = rightRest := by
  have hdigits (char : Char) (hchar : char.isDigit = false) (number : ℕ) :
      char ∉ Nat.toDigits 10 number := fun hmem => by
    rw [(validNumber_toDigits number).2 char hmem] at hchar
    cases hchar
  have hxid {gtidSeq : GtidSeq} (hreadable : gtidSeq.Readable) : '#' ∉ gtidSeq.xidStart :=
    fun hmem => (hreadable.xid '#' hmem).1 rfl
  simp only [GtidSeq.serialize, List.append_assoc, List.cons_append] at heq ⊢
  obtain ⟨hversion, heq⟩ := append_cons_inj (hdigits '#' rfl _) (hdigits '#' rfl _) heq
  obtain ⟨hxids, heq⟩ := append_cons_inj (hxid hleft) (hxid hright) heq
  obtain ⟨hgtid, heq⟩ := append_cons_inj (hdigits '#' rfl _) (hdigits '#' rfl _) heq
  obtain ⟨htrxs, hrest⟩ := append_cons_inj (hdigits '|' rfl _) (hdigits '|' rfl _) heq
  rw [hversion, hxids, hgtid, htrxs]
  exact ⟨rfl, hrest⟩

section Entries

variable {entries others : List (ℕ × Text)} (hentries : ∀ entry ∈ entries, EntryOf saved entry)
  (hothers : ∀ entry ∈ others, EntryOf saved entry)

include hentries hothers

theorem terminated_entries_inj
    (heq : terminated '|' (entries.map Prod.snd) = terminated '|' (others.map Prod.snd)) :
    entries = others := by
  induction entries generalizing others with
  | nil =>
    cases others with
    | nil => rfl
    | cons other others => simp at heq
  | cons entry entries ih =>
    cases others with
    | nil => simp at heq
    | cons other others =>
      obtain ⟨⟨left, -, hleft, rfl⟩, hentriesRest⟩ := List.forall_mem_cons.mp hentries
      obtain ⟨⟨right, -, hright, rfl⟩, hothersRest⟩ := List.forall_mem_cons.mp hothers
      rw [List.map_cons, List.map_cons, terminated_cons, terminated_cons] at heq
      obtain ⟨hline, hrest⟩ := serialize_append_inj hleft hright heq
      have hversion := congrArg GtidSeq.commitVersion hline
      rw [commitVersion_serialize hleft, commitVersion_serialize hright] at hversion
      rw [ih hentriesRest hothersRest hrest, gtidEntry, gtidEntry, hline, hversion]

theorem dropLast_terminated_inj :
    (terminated '|' (entries.map Prod.snd)).dropLast =
        (terminated '|' (others.map Prod.snd)).dropLast ↔ entries = others := by
  have hends : ∀ {list : List (ℕ × Text)}, (∀ entry ∈ list, EntryOf saved entry) → list ≠ [] →
      ∃ char rest, terminated '|' (list.map Prod.snd) = (char :: rest) ++ ['|'] := by
    intro list hlist hne
    obtain ⟨front, last, rfl⟩ := (List.eq_nil_or_concat' list).resolve_left hne
    obtain ⟨gtidSeq, -, -, rfl⟩ := hlist last (by simp)
    have hnonempty : terminated '|' (front.map Prod.snd) ++ gtidSeq.serialize ≠ [] := by
      simp [GtidSeq.serialize]
    obtain ⟨char, rest, htext⟩ := List.exists_cons_of_ne_nil hnonempty
    refine ⟨char, rest, ?_⟩
    rw [← htext]
    simp [gtidEntry]
  refine ⟨fun heq => ?_, fun heq => by rw [heq]⟩
  rcases eq_or_ne entries [] with rfl | hentriesNe
  · rcases eq_or_ne others [] with rfl | hothersNe
    · rfl
    · obtain ⟨char, rest, hothersText⟩ := hends hothers hothersNe
      rw [hothersText, List.dropLast_concat] at heq
      cases heq
  · obtain ⟨char, rest, hentriesText⟩ := hends hentries hentriesNe
    rcases eq_or_ne others [] with rfl | hothersNe
    · rw [hentriesText, List.dropLast_concat] at heq
      cases heq
    · obtain ⟨otherChar, otherRest, hothersText⟩ := hends hothers hothersNe
      refine terminated_entries_inj hentries hothers ?_
      rw [hentriesText, hothersText, List.dropLast_concat, List.dropLast_concat] at heq
      rw [hentriesText, hothersText, heq]

end Entries

end Texts

structure ReportHistory.Kept (history : ReportHistory) : Prop where
  started : history.manager.firstEntryAfterRestarted = false
  cached : ∀ entry ∈ history.manager.gtidSeqSet, EntryOf history.saved entry
  cachedSorted : Sorted Prod.fst history.manager.gtidSeqSet
  filed : ∃ lines, FileOf history.manager history.saved lines

theorem entryOf_fileEntries {manager : GtidManager} {saved lines : List GtidSeq}
    (hfile : FileOf manager saved lines) : ∀ entry ∈ manager.fileEntries, EntryOf saved entry := by
  rw [hfile.fileEntries, List.forall_mem_map]
  exact fun gtidSeq hmem => ⟨gtidSeq, hfile.saved gtidSeq hmem, hfile.readable gtidSeq hmem, rfl⟩

namespace ReportHistory

variable {config : GtidConfig} {limit : ℕ} {history : ReportHistory}

theorem kept_start : Kept {} :=
  ⟨rfl, fun _ hentry => absurd hentry List.not_mem_nil, List.Pairwise.nil,
    ⟨[], rfl, by simp, by simp, List.Pairwise.nil⟩⟩

section Kept

variable (hkept : history.Kept)

include hkept

theorem skips_eq_false (gtidSeq : GtidSeq) :
    history.manager.skips gtidSeq = false := by
  rw [GtidManager.skips, hkept.started, Bool.false_and]

theorem kept_save {gtidSeq : GtidSeq}
    (hallows : history.Allows (.save gtidSeq)) : (history.step config (.save gtidSeq)).Kept := by
  obtain ⟨hreadable, hearlier⟩ := hallows
  obtain ⟨old, recent, hsplit, hset, hfile, hstarted⟩ :=
    GtidManager.saveGtidSeq_eq config (skips_eq_false hkept gtidSeq)
  have hrecent : ∀ entry ∈ recent, entry ∈ history.manager.gtidSeqSet := fun entry hentry =>
    hsplit ▸ List.mem_append_right _ hentry
  have hmore : ∀ earlier ∈ history.saved, earlier ∈ history.saved ++ [gtidSeq] :=
    fun earlier hmem => List.mem_append_left _ hmem
  have hle : ∀ entry, EntryOf history.saved entry → entry.1 ≤ gtidSeq.commitVersionStart := by
    rintro _ ⟨earlier, hmem, -, rfl⟩
    exact hearlier earlier hmem
  obtain ⟨lines, hlines⟩ := hkept.filed
  refine ⟨hstarted, ?_, ?_, _, hlines.append hreadable hearlier hfile⟩
  · intro entry hentry
    change entry ∈ (history.manager.saveGtidSeq config gtidSeq).gtidSeqSet at hentry
    rw [hset, List.mem_append, List.mem_singleton] at hentry
    rcases hentry with hold | rfl
    · exact (hkept.cached entry (hrecent entry hold)).mono hmore
    · exact ⟨gtidSeq, by simp [step], hreadable, rfl⟩
  · change Sorted _ (history.manager.saveGtidSeq config gtidSeq).gtidSeqSet
    have hsorted := hkept.cachedSorted
    rw [hsplit, Sorted, List.pairwise_append] at hsorted
    rw [hset]
    refine List.pairwise_append.mpr ⟨hsorted.2.1, List.pairwise_singleton _ _, ?_⟩
    intro entry hentry new hnew
    rw [List.mem_singleton.mp hnew]
    exact hle entry (hkept.cached entry (hrecent entry hentry))

theorem kept_rewrites {after : GtidManager}
    (hrewrites : Rewrites history.manager after) : Kept { history with manager := after } := by
  obtain ⟨lines, hlines⟩ := hkept.filed
  refine ⟨hrewrites.started_eq.trans hkept.started, ?_, ?_, hlines.rewrite hrewrites⟩
  · rw [hrewrites.gtidSeqSet_eq]
    exact hkept.cached
  · rw [hrewrites.gtidSeqSet_eq]
    exact hkept.cachedSorted

theorem kept_step {next : HistoryStep} (hallows : history.Allows next) :
    (history.step config next).Kept := by
  cases next with
  | save gtidSeq => exact kept_save hkept hallows
  | purge lastGtidPurged => exact kept_rewrites hkept (rewrites_purge _ _)
  | clearOutdated currentCheckpoint => exact kept_rewrites hkept (rewrites_clearOutdated _ _ _)

/-- Reports from memory are those from the file exactly if each second behind the front of
the memory begins alike. -/
theorem reportsAlike_iff :
    history.manager.ReportsAlike limit ↔
      history.manager.AgreeBehind limit history.manager.gtidSeqSet
        history.manager.fileEntries := by
  obtain ⟨lines, hlines⟩ := hkept.filed
  have hloop (entries : List (ℕ × Text)) (timestamp : ℕ) :
      GtidManager.incrLoop limit timestamp entries 0 =
        terminated '|' (((later Prod.fst entries timestamp).take (limit + 1)).map Prod.snd) :=
    incrLoop_eq (Nat.zero_le limit)
  have hreport : ∀ front ∈ history.manager.gtidSeqSet.head?, ∀ timestamp, front.1 ≤ timestamp →
      (history.manager.getInstanceIncrGtidsString limit timestamp =
          history.manager.incrGtidsOfFile limit timestamp ↔
        (later Prod.fst history.manager.gtidSeqSet timestamp).take (limit + 1) =
          (later Prod.fst history.manager.fileEntries timestamp).take (limit + 1)) := by
    intro front hfront timestamp htimestamp
    obtain ⟨rest, hset⟩ := List.head?_eq_some_iff.mp hfront
    have hmemory : history.manager.getInstanceIncrGtidsString limit timestamp =
        (GtidManager.incrLoop limit timestamp history.manager.gtidSeqSet 0).dropLast := by
      rw [GtidManager.getInstanceIncrGtidsString, hset]
      dsimp only
      rw [if_pos htimestamp]
    have htaken (entries : List (ℕ × Text)) (hentries : ∀ entry ∈ entries,
        EntryOf history.saved entry) :
        ∀ entry ∈ (later Prod.fst entries timestamp).take (limit + 1),
          EntryOf history.saved entry := fun entry hentry =>
      hentries entry (List.mem_of_mem_filter (List.take_subset _ _ hentry))
    rw [hmemory, GtidManager.incrGtidsOfFile, hloop, hloop,
      dropLast_terminated_inj (htaken _ hkept.cached) (htaken _ (entryOf_fileEntries hlines))]
  have hblocks (front : ℕ) := take_later_iff hkept.cachedSorted hlines.entriesSorted front
    (limit + 1)
  constructor
  · intro halike front hfront
    refine (hblocks front.1).mp fun timestamp htimestamp => ?_
    exact (hreport front hfront timestamp htimestamp).mp (halike front hfront timestamp htimestamp)
  · intro hagree front hfront timestamp htimestamp
    exact (hreport front hfront timestamp htimestamp).mpr
      ((hblocks front.1).mpr (hagree front hfront) timestamp htimestamp)

end Kept

section Alike

variable (hkept : history.Kept) (halike : history.manager.ReportsAlike limit)

include hkept halike

theorem reportsAlike_save {gtidSeq : GtidSeq} (hallows : history.Allows (.save gtidSeq)) :
    (history.step config (.save gtidSeq)).manager.ReportsAlike limit := by
  have hagree := (reportsAlike_iff hkept).mp halike
  rw [reportsAlike_iff (kept_save hkept hallows)]
  obtain ⟨hreadable, hearlier⟩ := hallows
  obtain ⟨old, recent, hsplit, hset, hfile, -⟩ :=
    GtidManager.saveGtidSeq_eq config (skips_eq_false hkept gtidSeq)
  obtain ⟨lines, hlines⟩ := hkept.filed
  have hentries : (history.manager.saveGtidSeq config gtidSeq).fileEntries =
      history.manager.fileEntries ++ [gtidEntry gtidSeq] := by
    rw [(hlines.append hreadable hearlier hfile).fileEntries, hlines.fileEntries, List.map_append,
      List.map_singleton]
  intro front hfront value hvalue
  change front ∈ (history.manager.saveGtidSeq config gtidSeq).gtidSeqSet.head? at hfront
  change (block _ (history.manager.saveGtidSeq config gtidSeq).gtidSeqSet value).take _ =
    (block _ (history.manager.saveGtidSeq config gtidSeq).fileEntries value).take _
  rw [hset] at hfront
  rw [hset, hentries, block_append, block_append]
  cases recent with
  | nil =>
    -- The new line is the only one in memory, and no line is behind it.
    obtain rfl := Option.some.inj hfront
    have hnone : block Prod.fst history.manager.fileEntries value = [] := by
      refine block_eq_nil fun entry hentry => ?_
      obtain ⟨earlier, hmem, -, rfl⟩ := entryOf_fileEntries hlines entry hentry
      exact ((hearlier earlier hmem).trans_lt hvalue).ne
    rw [hnone]
    rfl
  | cons first recent =>
    obtain rfl := Option.some.inj hfront
    have hsorted := hkept.cachedSorted
    rw [hsplit, Sorted, List.pairwise_append] at hsorted
    have hold : block Prod.fst old value = [] := by
      refine block_eq_nil fun entry hentry => ?_
      exact ((hsorted.2.2 entry hentry first List.mem_cons_self).trans_lt hvalue).ne
    have hmemory : block Prod.fst history.manager.gtidSeqSet value =
        block Prod.fst (first :: recent) value := by
      rw [hsplit, block_append, hold, List.nil_append]
    rw [← hmemory]
    refine take_append_congr ?_ _
    cases old with
    | nil => exact hagree first (by rw [hsplit]; rfl) value hvalue
    | cons oldest old =>
      have hle := hsorted.2.2 oldest List.mem_cons_self first List.mem_cons_self
      exact hagree oldest (by rw [hsplit]; rfl) value (hle.trans_lt hvalue)

/-- After a rewriting of the file reports are still alike exactly if it keeps the lines that
matter. -/
theorem reportsAlike_rewrites_iff {after : GtidManager}
    (hrewrites : Rewrites history.manager after) :
    after.ReportsAlike limit ↔
      history.manager.AgreeBehind limit history.manager.fileEntries after.fileEntries := by
  have hagree := (reportsAlike_iff hkept).mp halike
  have hafter := @reportsAlike_iff limit _ (kept_rewrites hkept hrewrites)
  rw [hafter]
  unfold GtidManager.AgreeBehind
  rw [hrewrites.gtidSeqSet_eq]
  refine forall₄_congr fun front hfront value hvalue => ?_
  rw [hagree front hfront value hvalue]

theorem reportsAlike_step_iff {next : HistoryStep} (hallows : history.Allows next) :
    (history.step config next).manager.ReportsAlike limit ↔
      history.KeepsReported config limit next := by
  cases next with
  | save gtidSeq => exact iff_of_true (reportsAlike_save hkept halike hallows) trivial
  | purge lastGtidPurged => exact reportsAlike_rewrites_iff hkept halike (rewrites_purge _ _)
  | clearOutdated currentCheckpoint =>
    exact reportsAlike_rewrites_iff hkept halike (rewrites_clearOutdated _ _ _)

end Alike

def savedTwice : List HistoryStep :=
  [.save ⟨1, ['a'], 1, 1⟩, .save ⟨2, ['b'], 2, 1⟩]

end ReportHistory

end OblogProxy.Cluster
