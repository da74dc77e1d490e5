import DidVault.Proofs.Keys.Pool
import DidVault.Proofs.Registry.Steps

/-!
# What is done with the pool

An operation may take pairs and make pairs wait on its way, whether or not it
succeeds in the end and whether or not its transaction is taken back.  `Uses`
says of a run which pairs it made wait and which it handed out, in this order
(`KeyEvent`).  A step counts as doing nothing of the kind only if it is the same
for every pool and every source of pairs (`Apart`).

Every run of whatever is offered at a desk has such a log, and every log is one
of a run (`Offered.runs_iff`).  The account's own key is handed out for no other
purpose, and neither is its password key (`Custody.traces_spaceKey`,
`Custody.traces_passwordKey`).
-/

namespace DidVault

/-- What happens to a pair of keys. -/
inductive KeyEvent where
  /-- It is made to wait for a purpose. -/
  | filled (purpose : KeyPurpose) (pair : KeyPair)
  /-- It is handed out for a purpose. -/
  | handed (purpose : KeyPurpose) (pair : KeyPair)
  deriving Repr, DecidableEq

/-- The pair is handed out for this purpose. -/
def KeyEvent.HandedFor (purpose : KeyPurpose) (e : KeyEvent) : Prop :=
  ∃ pair, e = .handed purpose pair

/-- The same desk with another pool and another source of pairs. -/
def Desk.restock (pool : KeyPool) (source : KeySource) (d : Desk) : Desk :=
  { d with pool, source }

/-- The operation neither looks at the pool and the source of pairs nor changes
them. -/
def Apart {α : Type} (op : DeskM α) : Prop :=
  ∀ pool source, Commutes (Desk.restock pool source) op

section Apart

open DeskM

variable {α : Type}

/-- Calls on the records leave the pool and its log alone. -/
theorem apart_records (op : RecordsM α) : Apart (records op) := by
  intro pool source d r d' hrun
  obtain ⟨r₀, v', h, rfl, rfl⟩ := records_iff.mp hrun
  exact records_iff.mpr ⟨r₀, v', h, rfl, rfl⟩

/-- Drawing random bytes leaves the pool and its log alone. -/
theorem apart_draw (count : Nat) (shortage : Error) :
    Apart (draw count shortage) :=
  fun pool source =>
    commutes_draw (f := Desk.restock pool source) (fun _ => rfl)
      (fun _ _ => rfl) count shortage

/-- Listing the accounts leaves the pool and its log alone. -/
theorem apart_accounts : Apart Registry.accounts := by
  intro pool source d r d' hrun
  unfold Registry.accounts at hrun ⊢
  rw [Runs.get_bind] at hrun ⊢
  cases hrows : d.view.committed.accounts with
  | ok rows =>
      simp only [hrows] at hrun
      obtain ⟨rfl, rfl⟩ := Runs.pure_iff.mp hrun
      simp only [Desk.restock, hrows]
      exact Runs.pure_iff.mpr ⟨rfl, rfl⟩
  | error e =>
      simp only [hrows] at hrun
      obtain ⟨rfl, rfl⟩ := Runs.throw_iff.mp hrun
      simp only [Desk.restock, hrows]
      exact Runs.throw_iff.mpr ⟨rfl, rfl⟩

/-- What is the same for every pool leaves the pool it finds. -/
theorem Apart.supply {op : DeskM α} {d d' : Desk} {r : Except Error α}
    (hapart : Apart op) (hrun : Runs op d r d') :
    d'.pool = d.pool ∧ d'.source = d.source := by
  -- with its own pool and source the desk is the same, so that the run ends at
  -- the same desk
  have hsame : Runs op d r (d'.restock d.pool d.source) :=
    hapart d.pool d.source hrun
  obtain ⟨-, hend⟩ := Runs.unique hrun hsame
  rw [hend]
  exact ⟨rfl, rfl⟩

end Apart

/-- The run of the operation from the first state to the second, which ends in
this way, makes pairs wait and hands pairs out as the log says.  The desk is the
part `desk` of the state. -/
inductive Uses :
    ∀ {σ α : Type}, (σ → Desk) → ExceptT Error (StateM σ) α → σ →
      List KeyEvent →
    Except Error α → σ → Prop where
  | apart {α : Type} {op : DeskM α} {d d' : Desk} {r : Except Error α}
      (hapart : Apart op) (hrun : Runs op d r d')
      : Uses id op d [] r d'
  /-- The pair that waits, if there is one, is handed out. -/
  | take {purpose : KeyPurpose} {d d' : Desk} {found : Option KeyPair}
      (hrun : Runs (DeskM.take purpose) d (.ok found) d')
      : Uses id (DeskM.take purpose) d (found.toList.map (.handed purpose))
        (.ok found) d'
  /-- The answer is handed out, whether it waited or is new. -/
  | takeOrMake {purpose : KeyPurpose} {d d' : Desk} {r : Except Error KeyPair}
      (hrun : Runs (DeskM.takeOrMake purpose) d r d')
      : Uses id (DeskM.takeOrMake purpose) d
        (r.toOption.toList.map (.handed purpose)) r d'
  /-- If no pair waited for the purpose before, then the one that does so
  afterwards was made to wait. -/
  | fill {purpose : KeyPurpose} {d d' : Desk} {r : Except Error Unit}
      (hrun : Runs (DeskM.fill purpose) d r d')
      : Uses id (DeskM.fill purpose) d
          (if d.pool.isReady purpose then []
            else (d'.pool.get purpose).toList.map (.filled purpose)) r d'
  | pure {σ α : Type} {desk : σ → Desk} (a : α) (s : σ) :
    Uses desk (pure a) s [] (.ok a) s
  | throw {σ α : Type} {desk : σ → Desk} (e : Error) (s : σ)
      : Uses desk (throw e : ExceptT Error (StateM σ) α) s [] (.error e) s
  | bind_ok {σ α β : Type} {desk : σ → Desk} {x : ExceptT Error (StateM σ) α}
      {f : α → ExceptT Error (StateM σ) β} {s s₁ s' : σ}
      {log more : List KeyEvent} {a : α}
      {r : Except Error β} (hfirst : Uses desk x s log (.ok a) s₁)
      (hrest : Uses desk (f a) s₁ more r s')
      : Uses desk (x >>= f) s (log ++ more) r s'
  | bind_error {σ α β : Type} {desk : σ → Desk} {x : ExceptT Error (StateM σ) α}
      {f : α → ExceptT Error (StateM σ) β} {s s' : σ} {log : List KeyEvent}
      {e : Error}
      (hfirst : Uses desk x s log (.error e) s')
      : Uses desk (x >>= f) s log (.error e) s'
  | identifier (i : Identifier) (d : Desk)
      : Uses Prod.snd IssueM.identifier (i, d) [] (.ok i) (i, d)
  | setIdentifier (i j : Identifier) (d : Desk)
      : Uses Prod.snd (IssueM.setIdentifier j) (i, d) [] (.ok ()) (j, d)
  | atDesk {α : Type} {op : DeskM α} {i : Identifier} {d d' : Desk}
      {log : List KeyEvent} {r : Except Error α} (hop : Uses id op d log r d')
      : Uses Prod.snd (IssueM.atDesk op) (i, d) log r (i, d')
  | onIdentifier {α : Type} {op : IssueM α} {i i' : Identifier} {d d' : Desk}
      {log : List KeyEvent} {r : Except Error α}
      (hop : Uses Prod.snd op (i, d) log r (i', d'))
      : Uses id (IssueM.onIdentifier i op) d log (r.map (·, i')) d'
  /-- In an open transaction of the caller. -/
  | joined {α : Type} {op : DeskM α} {d d' : Desk} {log : List KeyEvent}
      {r : Except Error α} (hopen : d.view.pending.isSome = true)
      (hop : Uses id op d log r d')
      : Uses id (DeskM.transactionally op) d log r d'
  /-- In a transaction of its own.  If that is taken back, the log is the
  same. -/
  | whole {α : Type} {op : DeskM α} {d d' : Desk} {log : List KeyEvent}
      {r : Except Error α} (hclosed : d.view.pending = none)
      (hop : Uses id op { d with view := d.view.begin } log r d')
      : Uses id (DeskM.transactionally op) d log r
          { d' with view := DeskM.settle r d'.view }

/-- What has a log is a run. -/
theorem Uses.runs {σ α : Type} {desk : σ → Desk}
    {op : ExceptT Error (StateM σ) α} {s s' : σ} {log : List KeyEvent}
    {r : Except Error α} (huses : Uses desk op s log r s') :
    Runs op s r s' := by
  induction huses with
  | apart _ hrun => exact hrun
  | take hrun => exact hrun
  | takeOrMake hrun => exact hrun
  | fill hrun => exact hrun
  | pure a s => exact Runs.pure_iff.mpr ⟨rfl, rfl⟩
  | throw e s => exact Runs.throw_iff.mpr ⟨rfl, rfl⟩
  | bind_ok _ _ hfirst hrest => exact (Runs.bind_of_ok hfirst).mpr hrest
  | bind_error _ hfirst => exact (Runs.bind_of_error hfirst).mpr ⟨rfl, rfl⟩
  | identifier i d => exact IssueM.identifier_iff.mpr ⟨rfl, rfl⟩
  | setIdentifier i j d => exact Runs.modify_iff.mpr ⟨rfl, rfl⟩
  | atDesk _ hop => exact IssueM.atDesk_iff.mpr ⟨_, hop, rfl⟩
  | onIdentifier _ hop => exact IssueM.onIdentifier_iff.mpr ⟨_, _, hop, rfl⟩
  | joined hopen _ hop => exact (DeskM.transactionally_of_open hopen).mpr hop
  | whole hclosed _ hop =>
      exact (DeskM.transactionally_of_closed hclosed).mpr ⟨_, hop, rfl⟩

/-! ## Every run has a log -/

/-- Every run of the operation, failed or not, has a log of events that are
allowed. -/
def Traces {σ α : Type} (allowed : KeyEvent → Prop) (desk : σ → Desk)
    (op : ExceptT Error (StateM σ) α) : Prop :=
  ∀ ⦃s r s'⦄, Runs op s r s' → ∃ log, Uses desk op s log r s' ∧
  ∀ e ∈ log, allowed e

section Traces

open DeskM

variable {σ α : Type} {allowed : KeyEvent → Prop}

/-- Tracing is kept by plain answers, by errors and by sequencing. -/
theorem closed_traces (allowed : KeyEvent → Prop) (desk : σ → Desk) :
    Closed fun {α : Type} (op : ExceptT Error (StateM σ) α) =>
      Traces allowed desk op where
  pure a s r s' hrun := by
    obtain ⟨rfl, rfl⟩ := Runs.pure_iff.mp hrun
    exact ⟨[], .pure a s', by simp⟩
  throw e s r s' hrun := by
    obtain ⟨rfl, rfl⟩ := Runs.throw_iff.mp hrun
    exact ⟨[], .throw e s', by simp⟩
  bind {α β x f} hx hf s r s' hrun := by
    obtain ⟨r₁, s₁, hfirst⟩ := Runs.ends x s
    obtain ⟨log, hlog, hallowed⟩ := hx hfirst
    cases r₁ with
    | error e =>
        obtain ⟨rfl, rfl⟩ := (Runs.bind_of_error hfirst).mp hrun
        exact ⟨log, .bind_error hlog, hallowed⟩
    | ok a =>
        obtain ⟨more, hmore, hrest⟩ := hf a ((Runs.bind_of_ok hfirst).mp hrun)
        exact ⟨log ++ more, .bind_ok hlog hmore,
          List.forall_mem_append.mpr ⟨hallowed, hrest⟩⟩

/-- What stays apart from the keys has the empty log. -/
theorem Apart.traces {op : DeskM α} (hapart : Apart op) :
    Traces allowed id op :=
  fun _ _ _ hrun => ⟨[], .apart hapart hrun, by simp⟩

/-- Taking a pair traces that it was handed out for its purpose. -/
theorem traces_take {purpose : KeyPurpose}
    (hallowed : ∀ pair, allowed (.handed purpose pair)) :
    Traces allowed id (take purpose) := by
  intro d r d' hrun
  obtain ⟨rfl, -⟩ := take_iff.mp hrun
  exact ⟨_, .take hrun, by simp [hallowed]⟩

/-- Taking a pair or making one traces that it was handed out for its
purpose. -/
theorem traces_takeOrMake {purpose : KeyPurpose}
    (hallowed : ∀ pair, allowed (.handed purpose pair)) :
    Traces allowed id (takeOrMake purpose) :=
  fun _ _ _ hrun => ⟨_, .takeOrMake hrun, by simp [hallowed]⟩

/-- Filling traces the pair that was put into the pool. -/
theorem traces_fill {purpose : KeyPurpose}
    (hallowed : ∀ pair, allowed (.filled purpose pair)) :
    Traces allowed id (fill purpose) := by
  intro d r d' hrun
  refine ⟨_, .fill hrun, fun e he => ?_⟩
  split at he
  · cases he
  · obtain ⟨pair, -, rfl⟩ := List.mem_map.mp he
    exact hallowed pair

/-- A transaction traces what its steps trace, also when it is rolled back. -/
theorem traces_transactionally {op : DeskM α} (hop : Traces allowed id op) :
    Traces allowed id (transactionally op) := by
  intro d r d' hrun
  by_cases hopen : d.view.pending.isSome = true
  · obtain ⟨log, hlog, hallowed⟩ :=
      hop ((transactionally_of_open hopen).mp hrun)
    exact ⟨log, .joined hopen hlog, hallowed⟩
  · have hclosed : d.view.pending = none := by simpa using hopen
    obtain ⟨d₁, hbegun, rfl⟩ := (transactionally_of_closed hclosed).mp hrun
    obtain ⟨log, hlog, hallowed⟩ := hop hbegun
    exact ⟨log, .whole hclosed hlog, hallowed⟩

/-- All work of the registry has a log, as soon as pairs may be handed out. -/
theorem traces (hallowed : ∀ purpose pair, allowed (.handed purpose pair)) :
    Pervades (fun _ => True) (Traces allowed id) (Traces allowed Prod.snd) where
  onRecords := ⟨fun _ => trivial, fun _ => trivial, fun _ _ => trivial⟩
  read? _ := trivial
  put _ _ := trivial
  delete _ := trivial
  onDesk := closed_traces allowed id
  records {α op} _ := (apart_records op).traces
  draw count shortage := (apart_draw count shortage).traces
  takeOrMake purpose := traces_takeOrMake (hallowed purpose)
  onIdentifiers := closed_traces allowed Prod.snd
  identifier := by
    rintro ⟨i, d⟩ r s' hrun
    obtain ⟨rfl, rfl⟩ := IssueM.identifier_iff.mp hrun
    exact ⟨[], .identifier i d, by simp⟩
  setIdentifier j := by
    rintro ⟨i, d⟩ r s' hrun
    obtain ⟨rfl, rfl⟩ := Runs.modify_iff.mp hrun
    exact ⟨[], .setIdentifier i j d, by simp⟩
  atDesk hop := by
    rintro ⟨i, d⟩ r s' hrun
    obtain ⟨d', h, rfl⟩ := IssueM.atDesk_iff.mp hrun
    obtain ⟨log, hlog, hallowed⟩ := hop h
    exact ⟨log, .atDesk hlog, hallowed⟩
  onIdentifier i hop d r d' hrun := by
    obtain ⟨r₀, i', h, rfl⟩ := IssueM.onIdentifier_iff.mp hrun
    obtain ⟨log, hlog, hallowed⟩ := hop h
    exact ⟨log, .onIdentifier hlog, hallowed⟩

end Traces

namespace Custody

open DeskM

/-- The account's own key does not touch the slot for passwords. -/
theorem leavesSlot_spaceKey (account : String) :
    LeavesSlot .password (spaceKey account) :=
  spaceKey_of_closed (closed_leavesSlot _) (leavesSlot_records _)
    (fun _ => leavesSlot_records _) (leavesSlot_takeOrMake (by decide))

/-- The password key does not touch the slot for the space. -/
theorem leavesSlot_passwordKey (account password : String) :
    LeavesSlot .space (passwordKey account password) :=
  passwordKey_of_closed (closed_leavesSlot _) (leavesSlot_records _)
    (fun _ => leavesSlot_records _) (leavesSlot_takeOrMake (by decide))
      leavesSlot_draw password

/-- For the account's own key, pairs are handed out for that purpose only. -/
theorem traces_spaceKey (account : String) :
    Traces (KeyEvent.HandedFor .space) id (spaceKey account) :=
  spaceKey_of_closed (closed_traces _ id) (apart_records _).traces
    (fun _ => (apart_records _).traces)
      (traces_takeOrMake fun pair => ⟨pair, rfl⟩)

/-- For the account's password key, pairs are handed out for that purpose
only. -/
theorem traces_passwordKey (account password : String) :
    Traces (KeyEvent.HandedFor .password) id (passwordKey account password) :=
  passwordKey_of_closed (closed_traces _ id) (apart_records _).traces
    (fun _ => (apart_records _).traces)
      (traces_takeOrMake fun pair => ⟨pair, rfl⟩)
    (fun _ _ => (apart_draw _ _).traces) password

end Custody

/-- An operation that users have: those of the pool, of the keys and of the
registry, those that issue a key on an identifier, and what is put together of
them. -/
inductive Offered : ∀ {α : Type}, DeskM α → Prop where
  | pregenerate : Offered DeskM.pregenerate
  | take (purpose : KeyPurpose) : Offered (DeskM.take purpose)
  | takeOrMake (purpose : KeyPurpose) : Offered (DeskM.takeOrMake purpose)
  | spaceKey (account : String) : Offered (Custody.spaceKey account)
  | passwordKey (account password : String) :
    Offered (Custody.passwordKey account password)
  | rotate (account old new : String) : Offered (Custody.rotate account old new)
  | addDevice (i : Identifier) (now : Timestamp) (account : String)
      : Offered (IssueM.onIdentifier i (Issuing.addDevice now account))
  | addPasswordOnDevice (i : Identifier) (now : Timestamp)
      (account password : String) :
        Offered (IssueM.onIdentifier i
          (Issuing.addPasswordOnDevice now account password))
  | create (now : Timestamp) (account password : String) (keys : List BinderKey)
      : Offered (Registry.create now account password keys)
  | reset (now : Timestamp) (lookup : Lookup) (password : String)
      : Offered (Registry.reset now lookup password)
  | updatePassword (account old new : String) :
    Offered (Registry.updatePassword account old new)
  | saveIndex (account did : String) : Offered (Registry.saveIndex account did)
  | document (lookup : Lookup) : Offered (Registry.document lookup)
  | resolve (lookup : Lookup) : Offered (Registry.resolve lookup)
  | accounts : Offered Registry.accounts
  /-- What only has to do with the records, such as removing a password key or
  looking up the DID of an account. -/
  | records {α : Type} (op : RecordsM α) : Offered (DeskM.records op)
  | transactionally {α : Type} {op : DeskM α} (hop : Offered op)
      : Offered (DeskM.transactionally op)
  | pure {α : Type} (a : α) : Offered (pure a)
  | throw {α : Type} (e : Error) : Offered (throw e : DeskM α)
  | bind {α β : Type} {x : DeskM α} {f : α → DeskM β} (hx : Offered x)
      (hf : ∀ a, Offered (f a))
      : Offered (x >>= f)

namespace Offered

variable {α : Type} {op : DeskM α} {d d' : Desk} {r : Except Error α}

/-- Every operation on offer traces some events. -/
theorem traces (hoffered : Offered op) : Traces (fun _ => True) id op := by
  have hall : Pervades (fun _ => True) (Traces (fun _ => True) id)
      (Traces (fun _ => True) Prod.snd) := DidVault.traces fun _ _ => trivial
  induction hoffered with
  | pregenerate =>
      exact (closed_traces _ id).bind (traces_fill fun _ => trivial) fun _ =>
        traces_fill fun _ => trivial
  | take purpose => exact traces_take fun _ => trivial
  | takeOrMake purpose => exact hall.takeOrMake purpose
  | spaceKey account => exact hall.spaceKey account
  | passwordKey account password => exact hall.passwordKey account password
  | rotate account old new => exact hall.rotate account old new
  | addDevice i now account =>
      exact hall.onIdentifier i (hall.addDevice now account)
  | addPasswordOnDevice i now account password =>
      exact hall.onIdentifier i (hall.addPasswordOnDevice now account password)
  | create now account password keys =>
      rw [Registry.create_eq]
      exact traces_transactionally (hall.createSteps now account password keys)
  | reset now lookup password =>
      rw [Registry.reset_eq]
      exact traces_transactionally (hall.resetSteps now lookup password)
  | updatePassword account old new =>
      exact traces_transactionally (hall.rotate account old new)
  | saveIndex account did => exact traces_transactionally (hall.records trivial)
  | document lookup => exact hall.document lookup
  | resolve lookup =>
      exact hall.onDesk.bind (hall.document lookup) hall.readDocument
  | accounts => exact apart_accounts.traces
  | records op => exact (apart_records op).traces
  | transactionally _ hop => exact traces_transactionally hop
  | pure a => exact hall.onDesk.pure a
  | throw e => exact hall.onDesk.throw e
  | bind _ _ hx hf => exact hall.onDesk.bind hx hf

/-- The runs of what is offered are those that have a log. -/
theorem runs_iff (hoffered : Offered op) :
    Runs op d r d' ↔ ∃ log, Uses id op d log r d' := by
  constructor
  · intro hrun
    obtain ⟨log, hlog, -⟩ := hoffered.traces hrun
    exact ⟨log, hlog⟩
  · rintro ⟨log, hlog⟩
    exact hlog.runs

end Offered

end DidVault
