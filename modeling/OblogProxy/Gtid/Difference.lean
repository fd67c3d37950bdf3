import OblogProxy.Gtid.GtidSetText

/-!
# The in-place difference of two range lists

`difference` walks the targets in increasing order and edits the origin list in
place.  A target that removes the upper end of a range writes the new end one
too high on the wrong side (`range_target.first + 1`).  The loop is shown to
compute the set difference as long as no target does that, and to go wrong as
soon as one does.
-/

namespace OblogProxy.Gtid

open Intervals BinlogFunction List

def live (ranges : List TxnRange) : List TxnRange :=
  ranges.filter fun range => range.1 ≠ 0 && range.2 ≠ 0

/-- A range of the working list: deleted, or non-empty, positive and 64 bits wide. -/
def Piece (range : TxnRange) : Prop :=
  range = (0, 0) ∨ (0 < range.1 ∧ range.1 ≤ range.2 ∧ range.2 < 2 ^ 64)

/-- The target takes away the end of the range and leaves its beginning. -/
def Trimmed (target range : TxnRange) : Prop :=
  range.1 < target.1 ∧ target.1 ≤ range.2 ∧ range.2 ≤ target.2

/-- A target range: positive, non-empty and 64 bits wide. -/
def Target (target : TxnRange) : Prop :=
  0 < target.1 ∧ target.1 ≤ target.2 ∧ target.2 < 2 ^ 64

@[simp]
theorem live_nil : live [] = [] :=
  rfl

variable {range : TxnRange}

theorem live_cons (ranges : List TxnRange) (hfirst : 0 < range.1) (hlast : range.1 ≤ range.2) :
    live (range :: ranges) = range :: live ranges := by
  refine filter_cons_of_pos ?_
  have hsecond : range.2 ≠ 0 := by omega
  simp [hfirst.ne', hsecond]

variable {ranges : List TxnRange}

theorem mem_live : range ∈ live ranges ↔ range ∈ ranges ∧ range.1 ≠ 0 ∧ range.2 ≠ 0 := by
  simp [live]

theorem mem_live_of_pieces (hpieces : ∀ range ∈ ranges, Piece range) :
    range ∈ live ranges ↔ range ∈ ranges ∧ 0 < range.1 ∧ range.1 ≤ range.2 := by
  rw [mem_live]
  constructor
  · rintro ⟨hmem, hfirst, hlast⟩
    rcases hpieces range hmem with rfl | ⟨hpositive, hordered, _⟩
    · exact absurd rfl hfirst
    · exact ⟨hmem, hpositive, hordered⟩
  · rintro ⟨hmem, hfirst, hlast⟩
    exact ⟨hmem, by omega, by omega⟩

variable {target : TxnRange}

theorem flatMap_cutOut_of_apart (htarget : Target target) (hpieces : ∀ range ∈ ranges, Piece range)
    (hapart : ∀ range ∈ ranges, range = (0, 0) ∨ Apart range target) :
    (live ranges).flatMap (cutOut target) = live ranges := by
  have hsingle : ∀ range ∈ live ranges, cutOut target range = [range] := by
    intro range hrange
    obtain ⟨hmem, hfirst, hlast⟩ := (mem_live_of_pieces hpieces).mp hrange
    rcases hapart range hmem with rfl | hapart
    · exact absurd hfirst (by simp)
    · exact cutOut_of_apart htarget.2.1 hlast hapart
  rw [flatMap_congr hsingle, flatMap_singleton']

/-- Without a trimmed range, one pass of the inner loop cuts the target out of
every live range, up to the place where a split-off piece is put. -/
theorem live_subtractRange_perm (htarget : Target target) (hpieces : ∀ range ∈ ranges, Piece range)
    (hbreak : ranges.Pairwise fun left right => target.2 < left.2 → right = (0, 0) ∨
      Apart right target) (huntrimmed : ∀ range ∈ ranges, ¬Trimmed target range) :
    (live ((subtractRange target ranges).1 ++ (subtractRange target ranges).2)).Perm
      ((live ranges).flatMap (cutOut target)) := by
  induction ranges with
  | nil => exact List.Perm.nil
  | cons range ranges ih =>
    obtain ⟨hpiece, hrest⟩ := forall_mem_cons.mp hpieces
    obtain ⟨hafter, hbreakRest⟩ := pairwise_cons.mp hbreak
    obtain ⟨hrange, huntrimmedRest⟩ := forall_mem_cons.mp huntrimmed
    have ih := ih hrest hbreakRest huntrimmedRest
    have hkeep (hreach : target.2 < range.2) := flatMap_cutOut_of_apart htarget hrest
      fun later hlater => hafter later hlater hreach
    obtain ⟨hpositive, hordered, hwide⟩ := htarget
    rcases hpiece with rfl | ⟨hfirst, hlast, hbound⟩
    · rw [subtractRange, if_neg (by simp), if_pos hpositive]
      exact ih
    rw [live_cons ranges hfirst hlast, flatMap_cons, subtractRange]
    split_ifs with habove hbelow hinside hcovered hdelete hfront
    · rw [cutOut_of_apart hordered hlast (Or.inr habove), hkeep (by omega), append_nil,
        live_cons ranges hfirst hlast]
      rfl
    · rw [cutOut_of_apart hordered hlast (Or.inl hbelow), cons_append, live_cons _ hfirst hlast]
      exact ih.cons range
    · have hsplit : live [(range.1, target.1 - 1)] = [(range.1, target.1 - 1)] :=
        live_cons [] hfirst (show range.1 ≤ target.1 - 1 by omega)
      rw [hkeep hinside.1, Nat.mod_eq_of_lt (by omega), cutOut, if_pos hinside.2,
        if_pos hinside.1, min_eq_right (by omega), max_eq_right (by omega), live, filter_append, ← live, ← live,
        live_cons _ (by simp) (by simpa using hinside.1), hsplit]
      exact perm_append_singleton _ _
    · rw [cutOut, if_neg (by omega), if_neg (by omega)]
      exact ih
    · exact absurd ⟨by omega, by omega, hcovered⟩ hrange
    · rw [hkeep (by omega), Nat.mod_eq_of_lt (by omega), cutOut, if_neg (by omega),
        if_pos (by omega), max_eq_right (by omega), append_nil,
        live_cons _ (by simp) (by omega)]
      rfl
    · omega

/-- An untrimmed range is deleted or keeps its end. -/
def EditOf (old new : TxnRange) : Prop :=
  new = (0, 0) ∨ (new.2 = old.2 ∧ old.1 ≤ new.1)

theorem editOf_refl (range : TxnRange) : EditOf range range :=
  Or.inr ⟨rfl, le_rfl⟩

theorem eq_deleted_of_edit {new : TxnRange} (hedit : EditOf (0, 0) new ∧ Piece new) :
    new = (0, 0) := by
  obtain ⟨hdeleted | ⟨hlast, -⟩, hdeleted | ⟨hfirst, hordered, -⟩⟩ := hedit
  · exact hdeleted
  · exact hdeleted
  · exact hdeleted
  · omega

theorem exists_edited {old new : List TxnRange}
    (hedits : List.Forall₂ (fun old new => EditOf old new ∧ Piece new) old new)
    {edited : TxnRange} (hmem : edited ∈ new) :
    ∃ range ∈ old, EditOf range edited ∧ Piece edited := by
  induction hedits with
  | nil => simp at hmem
  | @cons oldHead newHead oldTail newTail hhead _ ih =>
    rcases mem_cons.mp hmem with rfl | hmem
    · exact ⟨oldHead, mem_cons_self, hhead⟩
    · obtain ⟨range, hrange, hedit⟩ := ih hmem
      exact ⟨range, mem_cons_of_mem oldHead hrange, hedit⟩

theorem subtractRange_edits (htarget : Target target) (hpieces : ∀ range ∈ ranges, Piece range)
    (huntrimmed : ∀ range ∈ ranges, ¬Trimmed target range) :
    List.Forall₂ (fun old new => EditOf old new ∧ Piece new) ranges
      (subtractRange target ranges).1 := by
  obtain ⟨hpositive, hordered, hwide⟩ := htarget
  induction ranges with
  | nil => exact List.Forall₂.nil
  | cons range ranges ih =>
    obtain ⟨hpiece, hrest⟩ := forall_mem_cons.mp hpieces
    obtain ⟨hrange, huntrimmedRest⟩ := forall_mem_cons.mp huntrimmed
    have ih := ih hrest huntrimmedRest
    have hsame : List.Forall₂ (fun old new => EditOf old new ∧ Piece new) ranges ranges :=
      forall₂_same.mpr fun later hlater => ⟨editOf_refl later, hrest later hlater⟩
    have hraised (hreach : target.2 < range.2) (hlow : range.1 ≤ target.2) :
        EditOf range ((target.2 + 1) % 2 ^ 64, range.2) ∧
          Piece ((target.2 + 1) % 2 ^ 64, range.2) := by
      have hbound : range.2 < 2 ^ 64 := by
        rcases hpiece with rfl | hpiece
        · exact absurd hreach (by simp)
        · exact hpiece.2.2
      rw [Nat.mod_eq_of_lt (by omega)]
      exact ⟨Or.inr ⟨rfl, by omega⟩, Or.inr ⟨by simp, hreach, hbound⟩⟩
    rw [subtractRange]
    split_ifs with habove hbelow hinside hcovered hdelete hfront
    · exact List.Forall₂.cons ⟨editOf_refl range, hpiece⟩ hsame
    · exact List.Forall₂.cons ⟨editOf_refl range, hpiece⟩ ih
    · exact List.Forall₂.cons (hraised hinside.1 (by omega)) hsame
    · exact List.Forall₂.cons ⟨Or.inl rfl, Or.inl rfl⟩ ih
    · exact absurd ⟨by omega, by omega, hcovered⟩ hrange
    · exact List.Forall₂.cons (hraised (by omega) (by omega)) hsame
    · omega

theorem subtractRange_appended (htarget : Target target) (hpieces : ∀ range ∈ ranges, Piece range) :
    ∀ piece ∈ (subtractRange target ranges).2, Piece piece ∧ piece.2 < target.1 := by
  obtain ⟨hpositive, hordered, hwide⟩ := htarget
  induction ranges with
  | nil => simp [subtractRange]
  | cons range ranges ih =>
    obtain ⟨hpiece, hrest⟩ := forall_mem_cons.mp hpieces
    rw [subtractRange]
    split_ifs with habove hbelow hinside hcovered hdelete hfront
    · simp
    · exact ih hrest
    · rcases hpiece with rfl | ⟨hfirst, hlast, hbound⟩
      · exact absurd hinside.1 (by simp)
      · simp only [mem_singleton, forall_eq, Piece]
        omega
    · exact ih hrest
    · exact ih hrest
    · simp
    · omega

/-- The state of the outer loop: the live ranges denote `origin` without what
was removed so far, and every range either stands in increasing order and ends
where a run of `origin` ends, or was split off below `bound`. -/
structure Loop (origin removed : Set ℕ) (bound : ℕ) (current : List TxnRange) : Prop where
  pieces : ∀ range ∈ current, Piece range
  ordered : current.Pairwise fun left right =>
    left = (0, 0) ∨ right = (0, 0) ∨ left.2 < right.1 ∨ right.2 < bound
  ends : ∀ range ∈ current, range = (0, 0) ∨ range.2 < bound ∨ range.2 + 1 ∉ origin
  apart : (live current).Pairwise Apart
  members_eq : members (live current) = origin \ removed

/-- A target that starts inside a run of `origin` and covers the rest of it. -/
def TrimsAt (origin : Set ℕ) (target : TxnRange) : Prop :=
  ∃ last, target.1 ≤ last ∧ last ≤ target.2 ∧ target.1 - 1 ∈ origin ∧
    (∀ number, target.1 ≤ number → number ≤ last → number ∈ origin) ∧ last + 1 ∉ origin

/-- The targets still to come lie above everything done so far. -/
structure Ahead (removed : Set ℕ) (bound : ℕ) (targets : List TxnRange) : Prop where
  target : ∀ target ∈ targets, Target target
  canonical : Canonical targets
  above : ∀ target ∈ targets, bound < target.1
  removed : ∀ target ∈ targets, ∀ number ∈ removed, number + 1 < target.1

variable {targets : List TxnRange}

theorem Ahead.tail {removed : Set ℕ} {bound : ℕ}
    (hahead : Ahead removed bound (target :: targets)) :
    Ahead (removed ∪ Set.Icc target.1 target.2) target.2 targets := by
  obtain ⟨htarget, hcanonical, -, hremoved⟩ := hahead
  obtain ⟨-, hgap, hcanonical⟩ := canonical_cons.mp hcanonical
  refine ⟨(forall_mem_cons.mp htarget).2, hcanonical, fun next hnext => ?_, ?_⟩
  · have := hgap next hnext
    omega
  · rintro next hnext number (hnumber | hnumber)
    · exact hremoved next (mem_cons_of_mem target hnext) number hnumber
    · have := hgap next hnext
      have := hnumber.2
      omega

namespace Loop

variable {origin removed : Set ℕ} {bound : ℕ} {current : List TxnRange} {target : TxnRange}

theorem mem_origin (hloop : Loop origin removed bound current) (hrange : range ∈ live current)
    {number : ℕ} (hfirst : range.1 ≤ number) (hlast : number ≤ range.2) : number ∈ origin := by
  have hmem : number ∈ members (live current) := ⟨range, hrange, hfirst, hlast⟩
  rw [hloop.members_eq] at hmem
  exact hmem.1

/-- Whether the target trims a range can be told from the two sets. -/
theorem exists_trimmed_iff (hloop : Loop origin removed bound current)
    (hahead : Ahead removed bound (target :: targets)) :
    (∃ range ∈ live current, Trimmed target range) ↔ TrimsAt origin target := by
  have hbound := hahead.above target mem_cons_self
  have hremoved := hahead.removed target mem_cons_self
  constructor
  · rintro ⟨range, hrange, hfirst, hstart, hlast⟩
    have hmem := (mem_live.mp hrange).1
    refine ⟨range.2, hstart, hlast, hloop.mem_origin hrange (by omega) (by omega),
      fun number hlow hhigh => hloop.mem_origin hrange (by omega) hhigh, ?_⟩
    rcases hloop.ends range hmem with rfl | hbelow | hend
    · exact absurd hfirst (by omega)
    · omega
    · exact hend
  · rintro ⟨last, hstart, hlast, hbefore, hrun, hend⟩
    have hkept : target.1 - 1 ∈ members (live current) := by
      rw [hloop.members_eq]
      exact ⟨hbefore, fun hgone => by have := hremoved _ hgone; omega⟩
    obtain ⟨range, hrange, hfirst, hreach⟩ := hkept
    obtain ⟨hmem, hpositive, -⟩ := (mem_live_of_pieces hloop.pieces).mp hrange
    have hrangeEnd : range.2 + 1 ∉ origin := by
      rcases hloop.ends range hmem with rfl | hbelow | hrangeEnd
      · exact absurd hpositive (by simp)
      · omega
      · exact hrangeEnd
    have hge : last ≤ range.2 := by
      by_contra hlt
      exact hrangeEnd (hrun _ (by omega) (by omega))
    have hle : range.2 ≤ last := by
      by_contra hlt
      exact hend (hloop.mem_origin hrange (by omega) (by omega))
    exact ⟨range, hrange, by omega, by omega, by omega⟩

theorem ordered_of_edits {old new : List TxnRange}
    (hedits : List.Forall₂ (fun old new => EditOf old new ∧ Piece new) old new)
    (hordered : old.Pairwise fun left right =>
      left = (0, 0) ∨ right = (0, 0) ∨ left.2 < right.1 ∨ right.2 < bound) :
    new.Pairwise fun left right =>
      left = (0, 0) ∨ right = (0, 0) ∨ left.2 < right.1 ∨ right.2 < bound := by
  induction hedits with
  | nil => exact List.Pairwise.nil
  | @cons oldHead newHead oldTail newTail hhead htail ih =>
    obtain ⟨hafter, hordered⟩ := pairwise_cons.mp hordered
    refine pairwise_cons.mpr ⟨fun later hlater => ?_, ih hordered⟩
    obtain ⟨earlier, hearlier, hedit⟩ := exists_edited htail hlater
    rcases hhead.1 with hdeleted | ⟨hheadLast, hheadFirst⟩
    · exact Or.inl hdeleted
    rcases hedit.1 with hdeleted | ⟨hlast, hfirst⟩
    · exact Or.inr (Or.inl hdeleted)
    rcases hafter earlier hearlier with rfl | rfl | hbefore | hbelow
    · exact Or.inl (eq_deleted_of_edit hhead)
    · exact Or.inr (Or.inl (eq_deleted_of_edit hedit))
    · exact Or.inr (Or.inr (Or.inl (by omega)))
    · exact Or.inr (Or.inr (Or.inr (by omega)))

theorem step (hloop : Loop origin removed bound current)
    (hahead : Ahead removed bound (target :: targets)) (htrims : ¬TrimsAt origin target) :
    Loop origin (removed ∪ Set.Icc target.1 target.2) target.2
      ((subtractRange target current).1 ++ (subtractRange target current).2) := by
  have htarget := hahead.target target mem_cons_self
  have hbound := hahead.above target mem_cons_self
  have huntrimmed : ∀ range ∈ current, ¬Trimmed target range := by
    intro range hrange htrimmed
    rcases hloop.pieces range hrange with rfl | ⟨hfirst, hlast, -⟩
    · exact absurd htrimmed.2.1 (by omega)
    · exact htrims ((hloop.exists_trimmed_iff hahead).mp
        ⟨range, mem_live.mpr ⟨hrange, by omega, by omega⟩, htrimmed⟩)
  have hbreak : current.Pairwise fun left right =>
      target.2 < left.2 → right = (0, 0) ∨ Apart right target := by
    refine hloop.ordered.imp fun {left right} hordered hreach => ?_
    rcases hordered with rfl | hdeleted | hbefore | hbelow
    · exact absurd hreach (by simp)
    · exact Or.inl hdeleted
    · exact Or.inr (Or.inr (by omega))
    · exact Or.inr (Or.inl (by omega))
  have hperm := live_subtractRange_perm htarget hloop.pieces hbreak huntrimmed
  have hedits := subtractRange_edits htarget hloop.pieces huntrimmed
  have happended := subtractRange_appended htarget hloop.pieces
  obtain ⟨hpositive, horderedTarget, hwide⟩ := htarget
  refine ⟨?_, ?_, ?_, ?_, ?_⟩
  · refine forall_mem_append.mpr ⟨fun range hrange => ?_, fun range hrange =>
      (happended range hrange).1⟩
    obtain ⟨_, _, hedit⟩ := exists_edited hedits hrange
    exact hedit.2
  · refine pairwise_append.mpr ⟨?_, ?_, fun left _ right hright => ?_⟩
    · refine (ordered_of_edits hedits hloop.ordered).imp fun {left right} hordered => ?_
      exact hordered.imp_right (Or.imp_right (Or.imp_right fun hbelow => by omega))
    · refine pairwise_of_forall_mem_list fun left _ right hright => ?_
      have := (happended right hright).2
      exact Or.inr (Or.inr (Or.inr (by omega)))
    · have := (happended right hright).2
      exact Or.inr (Or.inr (Or.inr (by omega)))
  · refine forall_mem_append.mpr ⟨fun range hrange => ?_, fun range hrange => ?_⟩
    · obtain ⟨old, hold, hedit⟩ := exists_edited hedits hrange
      rcases hedit.1 with hdeleted | ⟨hlast, -⟩
      · exact Or.inl hdeleted
      rcases hloop.ends old hold with rfl | hbelow | hend
      · exact Or.inl (eq_deleted_of_edit hedit)
      · exact Or.inr (Or.inl (by omega))
      · exact Or.inr (Or.inr (by rwa [hlast]))
    · have := (happended range hrange).2
      exact Or.inr (Or.inl (by omega))
  · exact (hperm.pairwise_iff Apart.symm).mpr (apart_flatMap_cutOut horderedTarget hloop.apart)
  · rw [members_perm hperm, members_flatMap_cutOut, hloop.members_eq, Set.sdiff_sdiff]

theorem run (hloop : Loop origin removed bound current) (hahead : Ahead removed bound targets)
    (htrims : ∀ target ∈ targets, ¬TrimsAt origin target) :
    ∃ last, Loop origin (removed ∪ members targets) last (subtractAll current targets) := by
  induction targets generalizing removed bound current with
  | nil => exact ⟨bound, by simpa [subtractAll] using hloop⟩
  | cons target targets ih =>
    obtain ⟨htrimsTarget, htrims⟩ := forall_mem_cons.mp htrims
    obtain ⟨last, hlast⟩ := ih (hloop.step hahead htrimsTarget) hahead.tail htrims
    refine ⟨last, ?_⟩
    rw [members_cons, ← Set.union_assoc]
    exact hlast

end Loop

theorem mem_subtractRange_of_lt (hmem : range ∈ ranges) (hbelow : range.2 < target.1) :
    range ∈ (subtractRange target ranges).1 := by
  induction ranges with
  | nil => simp at hmem
  | cons head ranges ih =>
    rw [subtractRange]
    rcases mem_cons.mp hmem with rfl | hmem
    · split_ifs
      · exact mem_cons_self
      · exact mem_cons_self
    · split_ifs
      · exact mem_cons_of_mem _ hmem
      · exact mem_cons_of_mem _ (ih hmem)
      · exact mem_cons_of_mem _ hmem
      · exact mem_cons_of_mem _ (ih hmem)
      · exact mem_cons_of_mem _ (ih hmem)
      · exact mem_cons_of_mem _ hmem
      · exact mem_cons_of_mem _ hmem

theorem mem_subtractAll_of_lt (hmem : range ∈ ranges)
    (hbelow : ∀ target ∈ targets, range.2 < target.1) : range ∈ subtractAll ranges targets := by
  induction targets generalizing ranges with
  | nil => exact hmem
  | cons target targets ih =>
    obtain ⟨hbelowTarget, hbelow⟩ := forall_mem_cons.mp hbelow
    exact ih (mem_append_left _ (mem_subtractRange_of_lt hmem hbelowTarget)) hbelow

/-- The inner loop reaches a trimmed range and moves its end past the start of
the target. -/
theorem trimmed_mem_subtractRange {front : List TxnRange} (back : List TxnRange)
    (htrimmed : Trimmed target range)
    (hfront : ∀ earlier ∈ front, earlier.1 ≤ earlier.2 ∧ earlier.2 < target.1) :
    (range.1, (target.1 + 1) % 2 ^ 64) ∈
      (subtractRange target (front ++ range :: back)).1 := by
  obtain ⟨hfirst, hstart, hlast⟩ := htrimmed
  induction front with
  | nil =>
    rw [nil_append, subtractRange, if_neg (by omega), if_neg (by omega), if_neg (by omega),
      if_pos hlast, if_neg (by omega)]
    exact mem_cons_self
  | cons earlier front ih =>
    obtain ⟨hearlier, hfront⟩ := forall_mem_cons.mp hfront
    rw [cons_append, subtractRange, if_neg (by omega), if_pos hearlier.2]
    exact mem_cons_of_mem _ (ih hfront)

/-- A target at the very end of the number range only deletes. -/
theorem mem_of_mem_subtractRange_of_max (hpieces : ∀ range ∈ ranges, Piece range)
    (hfirst : target.1 = 2 ^ 64 - 1) (hlast : target.2 = 2 ^ 64 - 1)
    (hrange : range ∈ live ((subtractRange target ranges).1 ++ (subtractRange target ranges).2)) :
    range ∈ ranges ∧ range.2 < target.1 := by
  induction ranges with
  | nil => simp [subtractRange] at hrange
  | cons head ranges ih =>
    obtain ⟨hpiece, hpieces⟩ := forall_mem_cons.mp hpieces
    have hbound : head.1 ≤ 2 ^ 64 - 1 ∧ head.2 ≤ 2 ^ 64 - 1 := by
      rcases hpiece with rfl | hpiece
      · simp
      · omega
    have ih := ih hpieces
    rw [subtractRange, if_neg (by omega)] at hrange
    split_ifs at hrange with hbelow hinside hcovered hdelete hfront
    · rw [mem_live, cons_append, mem_cons] at hrange
      obtain ⟨rfl | hmem, hlive⟩ := hrange
      · exact ⟨mem_cons_self, hbelow⟩
      · obtain ⟨hmem, hlow⟩ := ih (mem_live.mpr ⟨hmem, hlive⟩)
        exact ⟨mem_cons_of_mem head hmem, hlow⟩
    · omega
    · obtain ⟨hmem, hlow⟩ := ih hrange
      exact ⟨mem_cons_of_mem head hmem, hlow⟩
    · rw [mem_live, cons_append, mem_cons] at hrange
      obtain ⟨rfl | hmem, hlive⟩ := hrange
      · exact absurd (by simp [hfirst]) hlive.2
      · obtain ⟨hmem, hlow⟩ := ih (mem_live.mpr ⟨hmem, hlive⟩)
        exact ⟨mem_cons_of_mem head hmem, hlow⟩
    · omega
    · omega

namespace Loop

variable {origin removed : Set ℕ} {bound : ℕ} {current targets : List TxnRange} {target : TxnRange}

/-- The first trimming target spoils the result: its own first number stays in
it, or, where the new end wraps around to zero, the number before is lost. -/
theorem members_ne_of_trimsAt (hloop : Loop origin removed bound current)
    (hahead : Ahead removed bound (target :: targets)) (htrims : TrimsAt origin target) :
    members (live (subtractAll current (target :: targets))) ≠
      origin \ (removed ∪ members (target :: targets)) := by
  obtain ⟨hpositive, hordered, hwide⟩ := hahead.target target mem_cons_self
  have hbound := hahead.above target mem_cons_self
  obtain ⟨range, hrange, htrimmed⟩ := (hloop.exists_trimmed_iff hahead).mpr htrims
  obtain ⟨hmem, hfirst, hlast⟩ := (mem_live_of_pieces hloop.pieces).mp hrange
  have hgap := (canonical_cons.mp hahead.canonical).2.1
  intro hmembers
  by_cases hwrap : target.1 + 1 < 2 ^ 64
  · obtain ⟨front, back, rfl⟩ := append_of_mem hmem
    have hfront : ∀ earlier ∈ front, earlier.1 ≤ earlier.2 ∧ earlier.2 < target.1 := by
      intro earlier hearlier
      have hpiece := hloop.pieces earlier (mem_append_left _ hearlier)
      have horder := (pairwise_append.mp hloop.ordered).2.2 earlier hearlier range
        mem_cons_self
      obtain ⟨hlow, hstart, _⟩ := htrimmed
      rcases horder with rfl | rfl | hbefore | hbelow
      · exact ⟨le_rfl, hpositive⟩
      · exact absurd hfirst (by simp)
      · rcases hpiece with rfl | hpiece
        · exact ⟨le_rfl, hpositive⟩
        · exact ⟨hpiece.2.1, by omega⟩
      · omega
    have hspoiled := trimmed_mem_subtractRange back htrimmed hfront
    rw [Nat.mod_eq_of_lt hwrap] at hspoiled
    have hbelow : ∀ next ∈ targets, target.1 + 1 < next.1 := fun next hnext => by
      have := hgap next hnext
      omega
    have hstays : (range.1, target.1 + 1) ∈
        subtractAll (front ++ range :: back) (target :: targets) := by
      rw [subtractAll, foldl_cons]
      exact mem_subtractAll_of_lt (mem_append_left _ hspoiled) hbelow
    have hnumber : target.1 ∈ members (live (subtractAll (front ++ range :: back)
        (target :: targets))) :=
      ⟨_, mem_live.mpr ⟨hstays, by omega, by simp⟩, htrimmed.1.le, by simp⟩
    rw [hmembers] at hnumber
    exact hnumber.2 (Or.inr ⟨target, mem_cons_self, le_rfl, hordered⟩)
  · have hlastTarget : targets = [] := by
      refine eq_nil_iff_forall_not_mem.mpr fun next hnext => ?_
      obtain ⟨-, hnextOrdered, hnextWide⟩ := hahead.target next (mem_cons_of_mem _ hnext)
      have := hgap next hnext
      omega
    subst hlastTarget
    obtain ⟨last, hstart, hlastTarget, hbefore, -⟩ := htrims
    have hkept : target.1 - 1 ∈ members (live (subtractAll current [target])) := by
      rw [hmembers]
      refine ⟨hbefore, ?_⟩
      rintro (hgone | ⟨other, hother, hlow, hhigh⟩)
      · have := hahead.removed target mem_cons_self _ hgone
        omega
      · obtain rfl := mem_singleton.mp hother
        omega
    obtain ⟨other, hother, hotherFirst, hotherLast⟩ := hkept
    obtain ⟨hotherMem, hotherBelow⟩ := mem_of_mem_subtractRange_of_max hloop.pieces
      (show target.1 = 2 ^ 64 - 1 by omega) (by omega) hother
    have hne : other ≠ range := by
      rintro rfl
      have := htrimmed.2.1
      omega
    have hotherLive : other ∈ live current :=
      mem_live.mpr ⟨hotherMem, (mem_live.mp hother).2⟩
    have hapart := hloop.apart.forall hotherLive hrange hne
    obtain ⟨hlow, hreach, _⟩ := htrimmed
    rcases hapart with hapart | hapart
    · omega
    · omega

theorem run_members_ne (hloop : Loop origin removed bound current)
    (hahead : Ahead removed bound targets) (htrims : ∃ target ∈ targets, TrimsAt origin target) :
    members (live (subtractAll current targets)) ≠ origin \ (removed ∪ members targets) := by
  induction targets generalizing removed bound current with
  | nil => simp at htrims
  | cons target targets ih =>
    by_cases htarget : TrimsAt origin target
    · exact hloop.members_ne_of_trimsAt hahead htarget
    · have hlater : ∃ later ∈ targets, TrimsAt origin later := by
        simpa [htarget] using htrims
      have hne := ih (hloop.step hahead htarget) hahead.tail hlater
      rw [members_cons, ← Set.union_assoc]
      exact hne

end Loop

instance : Std.Total RangeLe :=
  ⟨fun left right => by simp only [RangeLe]; omega⟩

instance : IsTrans TxnRange RangeLe :=
  ⟨fun left middle right => by simp only [RangeLe]; omega⟩

theorem sortRanges_eq_self (hcanonical : Canonical ranges) : sortRanges ranges = ranges := by
  refine List.Pairwise.insertionSort_eq ?_
  refine (List.Pairwise.and_mem.mp hcanonical.separated).imp ?_
  rintro left right ⟨hleft, -, hgap⟩
  have := hcanonical.proper left hleft
  exact Or.inl (by omega)

theorem sortRanges_perm (ranges : List TxnRange) : (sortRanges ranges).Perm ranges :=
  perm_insertionSort RangeLe ranges

theorem increasing_sortRanges (hproper : Proper ranges) (hapart : ranges.Pairwise Apart) :
    Increasing (sortRanges ranges) := by
  have hperm := sortRanges_perm ranges
  have hproperSorted : Proper (sortRanges ranges) := fun range hrange =>
    hproper range (hperm.mem_iff.mp hrange)
  have hapartSorted := (hperm.pairwise_iff Apart.symm).mpr hapart
  have hsorted : (sortRanges ranges).Pairwise RangeLe := pairwise_insertionSort RangeLe ranges
  refine ⟨hproperSorted, (List.Pairwise.and_mem.mp (hsorted.and hapartSorted)).imp ?_⟩
  rintro left right ⟨hleft, hright, horder, hapart⟩
  have := hproperSorted right hright
  rcases hapart with hbefore | hafter
  · exact hbefore
  · rcases horder with horder | horder
    · omega
    · omega

/-- The 64-bit positive numbers a list of ranges may hold. -/
def Positive64 (ranges : List TxnRange) : Prop :=
  ∀ range ∈ ranges, 0 < range.1 ∧ range.2 < 2 ^ 64

theorem live_eq_self (hproper : Proper ranges) (hpositive : Positive64 ranges) :
    live ranges = ranges := by
  refine filter_eq_self.mpr fun range hrange => ?_
  have hfirst := (hpositive range hrange).1
  have hsecond : range.2 ≠ 0 := by
    have := hproper range hrange
    omega
  simp [hfirst.ne', hsecond]

theorem loop_init {origin : List TxnRange} (hcanonical : Canonical origin)
    (hpositive : Positive64 origin) : Loop (members origin) ∅ 0 origin where
  pieces := fun range hrange =>
    Or.inr ⟨(hpositive range hrange).1, hcanonical.proper range hrange, (hpositive range hrange).2⟩
  ordered := hcanonical.increasing.ordered.imp fun hbefore => Or.inr (Or.inr (Or.inl hbefore))
  ends := fun _ hrange => Or.inr (Or.inr (hcanonical.succ_notMem hrange))
  apart := by
    rw [live_eq_self hcanonical.proper hpositive]
    exact hcanonical.increasing.ordered.imp Or.inl
  members_eq := by rw [live_eq_self hcanonical.proper hpositive, Set.sdiff_empty]

theorem ahead_init {target : List TxnRange} (hcanonical : Canonical target)
    (hpositive : Positive64 target) : Ahead ∅ 0 target where
  target := fun range hrange =>
    ⟨(hpositive range hrange).1, hcanonical.proper range hrange, (hpositive range hrange).2⟩
  canonical := hcanonical
  above := fun range hrange => (hpositive range hrange).1
  removed := by simp

/-- `target` takes away the end of a run of `origin` and leaves its beginning:
from `first` to `last` everything is in `origin`, only `first` is not in
`target`, and the run of `origin` ends at `last`. -/
def TrimsTail (origin target : Set ℕ) : Prop :=
  ∃ first last, first < last ∧ first ∈ origin ∧ first ∉ target ∧
    (∀ number, first < number → number ≤ last → number ∈ origin ∧ number ∈ target) ∧
    last + 1 ∉ origin

theorem trimsTail_iff {origin : Set ℕ} {target : List TxnRange} (hcanonical : Canonical target)
    (hpositive : Positive64 target) :
    TrimsTail origin (members target) ↔ ∃ range ∈ target, TrimsAt origin range := by
  constructor
  · rintro ⟨first, last, hlt, hfirst, houtside, hrun, hend⟩
    obtain ⟨range, hrange, hlow, hhigh⟩ := (hrun (first + 1) (by omega) (by omega)).2
    have hstart : range.1 = first + 1 := by
      by_contra hne
      exact houtside ⟨range, hrange, by omega, by omega⟩
    have hlast : last ≤ range.2 := by
      by_contra hshort
      exact hcanonical.succ_notMem hrange (hrun (range.2 + 1) (by omega) (by omega)).2
    refine ⟨range, hrange, last, by omega, hlast, ?_, fun number hnumber hle => ?_, hend⟩
    · rwa [hstart, Nat.add_sub_cancel]
    · exact (hrun number (by omega) hle).1
  · rintro ⟨range, hrange, last, hstart, hlast, hbefore, hrun, hend⟩
    have hfirst := (hpositive range hrange).1
    refine ⟨range.1 - 1, last, by omega, hbefore, hcanonical.pred_notMem hrange hfirst,
      fun number hnumber hle => ⟨hrun number (by omega) hle, ?_⟩, hend⟩
    exact ⟨range, hrange, by omega, by omega⟩

theorem difference_eq {origin target : List TxnRange} (horigin : Canonical origin)
    (htarget : Canonical target) :
    difference origin target = live (subtractAll origin target) := by
  rw [difference, sortRanges_eq_self horigin, sortRanges_eq_self htarget, live]

section Result

variable {origin target : List TxnRange} (horigin : Canonical origin)
  (horiginPositive : Positive64 origin) (htarget : Canonical target)
  (htargetPositive : Positive64 target)

include horigin horiginPositive htarget htargetPositive

theorem difference_loop (htrims : ¬TrimsTail (members origin) (members target)) :
    ∃ last, Loop (members origin) (members target) last (subtractAll origin target) := by
  rw [trimsTail_iff htarget htargetPositive] at htrims
  have hrun := (loop_init horigin horiginPositive).run (ahead_init htarget htargetPositive)
    fun range hrange hat => htrims ⟨range, hrange, hat⟩
  rwa [Set.empty_union] at hrun

/-- `difference` denotes the set difference exactly when the target does not
trim the end off a run of the origin. -/
theorem members_difference_iff :
    members (difference origin target) = members origin \ members target ↔
      ¬TrimsTail (members origin) (members target) := by
  rw [difference_eq horigin htarget]
  constructor
  · intro hmembers htrims
    rw [trimsTail_iff htarget htargetPositive] at htrims
    refine (loop_init horigin horiginPositive).run_members_ne
      (ahead_init htarget htargetPositive) htrims ?_
    rwa [Set.empty_union]
  · intro htrims
    obtain ⟨last, hloop⟩ := difference_loop horigin horiginPositive htarget htargetPositive htrims
    exact hloop.members_eq

theorem increasing_difference (htrims : ¬TrimsTail (members origin) (members target)) :
    Increasing (sortRanges (difference origin target)) := by
  obtain ⟨last, hloop⟩ := difference_loop horigin horiginPositive htarget htargetPositive htrims
  rw [difference_eq horigin htarget]
  refine increasing_sortRanges (fun range hrange => ?_) hloop.apart
  exact ((mem_live_of_pieces hloop.pieces).mp hrange).2.2

end Result

end OblogProxy.Gtid
