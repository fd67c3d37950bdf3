import OblogProxy.Core.Runs
import OblogProxy.Gtid.Text

/-!
# The pool of metadata connections

A connection that is released is kept for the next user if the driver finds it in order, and is
deleted otherwise.  A user may ask for a connection that was verified; one that is not in order,
or none, is given back and the user asks again.  A cleanup deletes idle connections; it asks all
that have an entry, also one that a release has left behind in the handler of an exception.
-/

namespace OblogProxy.Cluster

open Gtid Runs List

abbrev Connection : Type := ℕ

inductive Answer
  | yes : Answer
  | no : Answer
  | throws : Answer
deriving DecidableEq

structure ReleaseAnswers where
  isClosed : Answer
  isValid : Answer
  resetThrows : Bool
  closeThrows : Bool

/-- What becomes of a connection; `thrown` is the deletion in the handler of an exception. -/
inductive Released
  | pooled : Released
  | deleted : Released
  | thrown : Released
deriving DecidableEq

def ReleaseAnswers.released (answers : ReleaseAnswers) : Released :=
  match answers.isClosed, answers.isValid with
  | .throws, _ => .thrown
  | .yes, _ => .deleted
  | .no, .throws => .thrown
  | .no, .yes => if answers.resetThrows then .thrown else .pooled
  | .no, .no => if answers.closeThrows then .thrown else .deleted

structure ConnectionPool where
  idle : List Connection
  activeTimes : List (Connection × ℕ)

namespace ConnectionPool

def setActive (now : ℕ) (conn : Connection) (pool : ConnectionPool) : ConnectionPool :=
  { pool with activeTimes := (conn, now) :: pool.activeTimes.filter (·.1 ≠ conn) }

/-- `get_connection`; `connect` is what the driver gives if no connection is idle. -/
def getConnection (now : ℕ) (connect : Option Connection) (pool : ConnectionPool) :
    Option Connection × ConnectionPool :=
  match pool.idle, connect with
  | conn :: idle, _ => (some conn, { pool with idle }.setActive now conn)
  | [], some conn => (some conn, pool.setActive now conn)
  | [], none => (none, pool)

def releaseConnection (now : ℕ) (answers : ReleaseAnswers) (pool : ConnectionPool)
    (conn : Connection) : ConnectionPool :=
  match answers.released with
  | .pooled => { pool with idle := conn :: pool.idle }.setActive now conn
  | .deleted => { pool with activeTimes := pool.activeTimes.filter (·.1 ≠ conn) }
  | .thrown => pool

end ConnectionPool

structure Attempt where
  now : ℕ
  connect : Option Connection
  isClosed : Answer
  isValid : Answer
  release : ReleaseAnswers

namespace Attempt

def usable (attempt : Attempt) (pool : ConnectionPool) : Answer :=
  match (pool.getConnection attempt.now attempt.connect).1, attempt.isClosed with
  | none, _ => .no
  | some _, .throws => .throws
  | some _, .yes => .no
  | some _, .no => attempt.isValid

/-- The pool when what the attempt gave, a null pointer included, has been released. -/
def retry (attempt : Attempt) (pool : ConnectionPool) : ConnectionPool :=
  let after := pool.getConnection attempt.now attempt.connect
  after.1.elim after.2 (after.2.releaseConnection attempt.now attempt.release)

end Attempt

inductive Got
  | pointer (conn : Option Connection) : Got
  | exception : Got

/-- `get_conn` of a database that does something at each attempt; nothing is returned as long
as the attempts given have not ended. -/
def getConn (verify : Bool) : ℕ → (ℕ → Attempt) → ConnectionPool → Option Got
  | 0, _, _ => none
  | attempts + 1, database, pool =>
    let conn := (pool.getConnection (database 0).now (database 0).connect).1
    if verify then
      match (database 0).usable pool with
      | .yes => some (.pointer conn)
      | .throws => some .exception
      | .no => getConn verify attempts (fun later => database (later + 1)) ((database 0).retry pool)
    else some (.pointer conn)

/-- The outcome of each attempt of a call that goes on until then. -/
def usableAt (database : ℕ → Attempt) (pool : ConnectionPool) : ℕ → Answer
  | 0 => (database 0).usable pool
  | later + 1 => usableAt (fun later => database (later + 1)) ((database 0).retry pool) later

/-- A verified call returns, with a null pointer if no attempt gives a connection in order, after
so many attempts more than there are idle connections. -/
def ReturnsWithin (constant : ℕ) (database : ℕ → Attempt) (pool : ConnectionPool) : Prop :=
  ∃ conn, getConn true (pool.idle.length + constant) database pool = some (.pointer conn) ∧
    ((∀ attempt < pool.idle.length + constant, usableAt database pool attempt ≠ .yes) →
      conn = none)

theorem getConn_pointer_iff (attempts : ℕ) (database : ℕ → Attempt) (pool : ConnectionPool) :
    (∃ conn, getConn true attempts database pool = some (.pointer conn)) ↔
      ∃ attempt < attempts, usableAt database pool attempt = .yes ∧
        ∀ earlier < attempt, usableAt database pool earlier = .no := by
  induction attempts generalizing database pool with
  | zero => simp [getConn]
  | succ attempts ih =>
    rw [Nat.exists_lt_succ_left]
    simp only [getConn, if_true, Nat.forall_lt_succ_left, usableAt]
    cases husable : (database 0).usable pool with
    | yes => simp
    | throws => simp
    | no => simpa using ih _ _

/-- A call that is verified returns in time exactly if an attempt in time gives a connection in
order, and none before it ends in an exception. -/
theorem returnsWithin_iff (constant : ℕ) (database : ℕ → Attempt) (pool : ConnectionPool) :
    ReturnsWithin constant database pool ↔
      ∃ attempt < pool.idle.length + constant, usableAt database pool attempt = .yes ∧
        ∀ earlier < attempt, usableAt database pool earlier = .no := by
  rw [← getConn_pointer_iff]
  constructor
  · rintro ⟨conn, hreturns, -⟩
    exact ⟨conn, hreturns⟩
  · rintro ⟨conn, hreturns⟩
    obtain ⟨attempt, hlt, hyes, -⟩ := (getConn_pointer_iff ..).mp ⟨conn, hreturns⟩
    exact ⟨conn, hreturns, fun hnone => absurd hyes (hnone attempt hlt)⟩

/-- A database that is down is asked again and again. -/
theorem not_returnsWithin_down :
    ¬ ∃ constant, ReturnsWithin constant
      (fun _ => ⟨0, none, .no, .no, ⟨.no, .no, false, false⟩⟩) ⟨[], []⟩ := by
  have hdown : ∀ attempt, usableAt (fun _ => ⟨0, none, .no, .no, ⟨.no, .no, false, false⟩⟩)
      ⟨[], []⟩ attempt = .no := by
    intro attempt
    induction attempt with
    | zero => rfl
    | succ attempt ih => exact ih
  rintro ⟨constant, conn, hreturns, -⟩
  obtain ⟨attempt, -, hyes, -⟩ := (getConn_pointer_iff ..).mp ⟨conn, hreturns⟩
  exact absurd ((hdown attempt).symm.trans hyes) nofun

/-- The clock and the driver during a cleanup. -/
structure CleanupAnswers where
  now : ℕ
  isClosed : Connection → Answer
  isValid : Connection → Answer

namespace CleanupAnswers

variable (answers : CleanupAnswers) (pool : ConnectionPool)

def isInactive (entry : Connection × ℕ) : Bool :=
  300 * 1000 * 1000 < toUint64 ((answers.now : ℤ) - entry.2)

/-- Whether an entry is to be deleted. -/
def expired (entry : Connection × ℕ) : Answer :=
  match answers.isInactive entry, answers.isClosed entry.1, answers.isValid entry.1 with
  | true, _, _ => .yes
  | false, .no, .yes => .no
  | false, .no, .no => .yes
  | false, .no, .throws => .throws
  | false, closed, _ => closed

/-- The entries in the order of the map. -/
def entries : List (Connection × ℕ) :=
  pool.activeTimes.mergeSort fun first second => first.1 ≤ second.1

/-- The entries in front of one that throws. -/
def passed : List (Connection × ℕ) :=
  (entries pool).takeWhile fun entry => answers.expired entry ≠ .throws

def toDelete : List Connection :=
  ((answers.passed pool).filter fun entry => answers.expired entry = .yes).map Prod.fst

def asked : List Connection :=
  (((entries pool).take ((answers.passed pool).length + 1)).filter fun entry =>
    !answers.isInactive entry).map Prod.fst

/-- `cleanup_inactive_connections`; an exception leaves the idle connections as they are. -/
def cleanup : ConnectionPool where
  activeTimes := pool.activeTimes.filter (·.1 ∉ answers.toDelete pool)
  idle :=
    if answers.passed pool = entries pool then pool.idle.filter (· ∉ answers.toDelete pool)
    else pool.idle

end CleanupAnswers

/-- The pool with the connections that are handed out, and those that a release has deleted in the
handler of an exception.  Connections that are neither idle nor handed out do not exist. -/
structure PoolRun where
  pool : ConnectionPool
  users : List Connection := []
  thrown : List Connection := []

/-- A call of `get_connection` finds the idle connections in the order of the set. -/
inductive PoolStep
  | get (now : ℕ) (connect : Option Connection) (idle : List Connection) : PoolStep
  | release (now : ℕ) (answers : ReleaseAnswers) (conn : Connection) : PoolStep
  | cleanup (answers : CleanupAnswers) : PoolStep

namespace PoolRun

open ConnectionPool

def existing (run : PoolRun) : List Connection :=
  run.pool.idle ++ run.users

def step (run : PoolRun) : PoolStep → PoolRun
  | .get now connect idle =>
    let (conn, pool) := { run.pool with idle }.getConnection now connect
    { pool, users := conn.toList ++ run.users, thrown := run.thrown.filter (· ∉ conn) }
  | .release now answers conn =>
    { pool := run.pool.releaseConnection now answers conn
      users := run.users.erase conn
      thrown := if answers.released = .thrown then conn :: run.thrown else run.thrown }
  | .cleanup answers => { run with pool := answers.cleanup run.pool }

/-- A new connection is not one that exists, and users release what they have. -/
def Possible (run : PoolRun) : PoolStep → Prop
  | .get _ connect idle => (∀ conn ∈ connect, conn ∉ run.existing) ∧ idle ~ run.pool.idle
  | .release _ _ conn => conn ∈ run.users
  | .cleanup _ => True

/-- The connections that the pool uses or deletes. -/
def used (run : PoolRun) : PoolStep → List Connection
  | .get .. => []
  | .release _ _ conn => [conn]
  | .cleanup answers =>
    answers.asked run.pool ++ run.pool.idle.filter (· ∈ answers.toDelete run.pool)

/-- Only connections that exist are used, and each of them is idle or has one user. -/
structure Safe (run : PoolRun) (next : PoolStep) : Prop where
  used : ∀ conn ∈ run.used next, conn ∈ run.existing
  owned : (run.step next).existing.Nodup

/-- A cleanup comes to no entry that a release has left behind. -/
def Spares (run : PoolRun) (next : PoolStep) : Prop :=
  ∀ conn ∈ run.used next, conn ∉ run.thrown

structure Kept (run : PoolRun) : Prop where
  owned : run.existing.Nodup
  entries : ∀ entry ∈ run.pool.activeTimes, entry.1 ∈ run.existing ∨ entry.1 ∈ run.thrown
  thrown : ∀ conn ∈ run.thrown, conn ∉ run.existing

variable {run : PoolRun}

theorem Kept.get (hkept : run.Kept) {now : ℕ} {connect : Option Connection}
    {idle : List Connection} (hpossible : run.Possible (.get now connect idle)) :
    (run.step (.get now connect idle)).Kept := by
  obtain ⟨howned, hentries, hthrown⟩ := hkept
  obtain ⟨hnew, hperm⟩ := hpossible
  replace hperm : run.existing ~ idle ++ run.users := (hperm.append_right _).symm
  simp only [hperm.mem_iff, hperm.nodup_iff] at howned hentries hthrown hnew
  match idle, connect with
  | conn :: idle, _ =>
    simp only [step, getConnection, setActive]
    constructor <;> grind [existing]
  | [], some conn =>
    simp only [step, getConnection, setActive]
    constructor <;> grind [existing]
  | [], none =>
    simp only [step, getConnection]
    constructor <;> grind [existing]

theorem Kept.release (hkept : run.Kept) {now : ℕ} {answers : ReleaseAnswers} {conn : Connection}
    (hconn : conn ∈ run.users) : (run.step (.release now answers conn)).Kept := by
  obtain ⟨howned, hentries, hthrown⟩ := hkept
  simp only [existing] at howned hentries hthrown
  rw [PoolRun.step, releaseConnection]
  cases answers.released with
  | pooled => constructor <;> grind [existing, setActive]
  | deleted => constructor <;> grind [existing]
  | thrown => constructor <;> grind [existing]

theorem Kept.cleanup (hkept : run.Kept) (answers : CleanupAnswers) :
    (run.step (.cleanup answers)).Kept := by
  obtain ⟨howned, hentries, hthrown⟩ := hkept
  simp only [existing] at howned hentries hthrown
  constructor <;> grind [existing, PoolRun.step, CleanupAnswers.cleanup]

section Possible

variable {next : PoolStep} (hkept : run.Kept) (hpossible : run.Possible next)

include hkept hpossible

theorem Kept.step : (run.step next).Kept := by
  cases next with
  | get now connect idle => exact hkept.get hpossible
  | release now answers conn => exact hkept.release hpossible
  | cleanup answers => exact hkept.cleanup answers

theorem Kept.used {conn : Connection} (hused : conn ∈ run.used next) :
    conn ∈ run.existing ∨ conn ∈ run.thrown := by
  cases next with
  | get now connect idle => exact absurd hused not_mem_nil
  | release now answers other =>
    rw [mem_singleton.mp hused]
    exact .inl (mem_append_right _ hpossible)
  | cleanup answers =>
    rcases mem_append.mp hused with hasked | hdeleted
    · obtain ⟨entry, hentry, rfl⟩ := mem_map.mp hasked
      exact hkept.entries entry (mem_mergeSort.mp (mem_of_mem_take (mem_filter.mp hentry).1))
    · exact .inl (mem_append_left _ (mem_filter.mp hdeleted).1)

theorem Kept.safe_iff : run.Safe next ↔ run.Spares next := by
  constructor
  · intro hsafe conn hused hthrown
    exact hkept.thrown conn hthrown (hsafe.used conn hused)
  · intro hspares
    refine ⟨fun conn hused => ?_, (hkept.step hpossible).owned⟩
    exact (hkept.used hpossible hused).resolve_right (hspares conn hused)

end Possible

/-- The pool never touches a deleted connection exactly if no cleanup comes, in time, to an entry
that a release has left behind. -/
theorem safe_along_iff {idle : List Connection} (hidle : idle.Nodup) {steps : List PoolStep}
    (hsteps : Along step Possible ⟨⟨idle, []⟩, [], []⟩ steps) :
    Along step Safe ⟨⟨idle, []⟩, [], []⟩ steps ↔ Along step Spares ⟨⟨idle, []⟩, [], []⟩ steps :=
  @along_iff_along _ _ step Possible Safe Spares Kept _
    (fun _ _ hkept hpossible => hkept.safe_iff hpossible)
    (fun _ _ hkept hpossible _ => hkept.step hpossible)
    ⟨by simpa [existing] using hidle, by simp, by simp⟩ _ hsteps

def sampleSteps : List PoolStep :=
  [.get 0 none [7], .release 1 ⟨.no, .yes, true, false⟩ 7,
    .cleanup ⟨2, fun _ => .no, fun _ => .yes⟩]

theorem possible_sampleSteps : Along step Possible ⟨⟨[7], []⟩, [], []⟩ sampleSteps :=
  ⟨⟨nofun, .refl _⟩, mem_cons_self, trivial, trivial⟩

theorem safe_along_iff_sampleSteps :
    Along step Safe ⟨⟨[7], []⟩, [], []⟩ sampleSteps ↔
      Along step Spares ⟨⟨[7], []⟩, [], []⟩ sampleSteps :=
  safe_along_iff (by decide) possible_sampleSteps

/-- The connection 7 cannot be reset, and is asked once more after it was deleted. -/
theorem not_safe_thrown :
    Along step Possible ⟨⟨[7], []⟩, [], []⟩ sampleSteps ∧
      ¬ Along step Safe ⟨⟨[7], []⟩, [], []⟩ sampleSteps :=
  ⟨possible_sampleSteps,
    fun hsafe => absurd (hsafe.2.2.1.used 7 (by decide +kernel)) (by decide)⟩

end PoolRun

end OblogProxy.Cluster
