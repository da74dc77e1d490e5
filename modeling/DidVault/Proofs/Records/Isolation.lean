import DidVault.Proofs.Records.Operations
import DidVault.Proofs.Records.Scan
import DidVault.Records.Database

/-!
# Isolation of transactions

The users of a database open transactions, read and write inside and outside of
them, scan, and close the transactions, in any order (`Database.Step`).  What
they find is known from the steps so far alone: the writes that an open
transaction has made (`pending`), the replay of all that has been carried out
(`stored`), and the one over the other (`visible`).  A database agrees with that
after every step (`Agrees.step`), whatever other transactions have done
meanwhile.

Histories have the last step first.
-/

namespace DidVault.Database

/-- One step of the users of a database, inside a transaction or, without a
name, outside.  Nothing is written to remove what is there. -/
inductive Step where
  | begin (name : String)
  | get (name : Option String) (key : String)
  | has (name : Option String) (key : String)
  | write (name : Option String) (key : String) (value : Option Bytes)
  | scan (start : String)
  | commit (name : String)
  | rollback (name : String)
  | drop (name : String)
  deriving DecidableEq

/-- What a step is answered. -/
inductive Reply where
  | done
  | found (value : Option Bytes)
  | has (there : Bool)
  | rows (rows : List (String × Bytes))
  deriving DecidableEq

/-- Writes a value under a key, or removes what is there. -/
def writing (key : String) : Option Bytes → RecordsM Unit
  | some value => RecordsM.put key value
  | none => RecordsM.delete key

/-- Does a step, if the transaction of the step is open.  To drop a transaction
is to roll it back. -/
def perform (db : Database) : Step → Option (Except StoreError Reply × Database)
  | .begin name => some (.ok .done, db.begin name)
  | .get name key => db.run? name (Reply.found <$> RecordsM.read? key)
  | .has name key => db.run? name (Reply.has <$> RecordsM.has key)
  | .write name key value =>
      db.run? name ((fun _ => Reply.done) <$> writing key value)
  | .scan start => some (Reply.rows <$> db.committed.scan start, db)
  | .commit name => (db.commit? name).map fun db => (.ok .done, db)
  | .rollback name => (db.rollback? name).map fun db => (.ok .done, db)
  | .drop name => (db.rollback? name).map fun db => (.ok .done, db)

/-- The database comes from `start` by the steps of a history. -/
inductive Played (start : Database) : List Step → Database → Prop where
  | start : Played start [] start
  | step {history : List Step} {db db' : Database} {step : Step}
      {reply : Except StoreError Reply} (hplayed : Played start history db)
      (hstep : db.perform step = some (reply, db')) :
      Played start (step :: history) db'

/-- A key, and what it holds after the write. -/
abbrev Write := Bytes × Option Bytes

/-- What a lookup finds after some writes, the last of which is the first of the
list. -/
def replay (look : Sight) : List Write → Sight
  | [] => look
  | (key, value) :: earlier => Function.update (replay look earlier) key value

/-- The writes that an open transaction has made, the last one first. -/
def pending (name : String) : List Step → Option (List Write)
  | [] => none
  | .begin other :: earlier =>
      if other = name then some [] else pending name earlier
  | .write (some other) key value :: earlier =>
      if other = name then
        (pending name earlier).map ((Utf8.encode key, value) :: ·)
      else pending name earlier
  | .commit other :: earlier =>
      if other = name then none else pending name earlier
  | .rollback other :: earlier =>
      if other = name then none else pending name earlier
  | .drop other :: earlier =>
      if other = name then none else pending name earlier
  | _ :: earlier => pending name earlier

/-- What has been carried out: each write from outside at its own time, and all
writes of a transaction when it is committed. -/
def stored (start : Sight) : List Step → Sight
  | [] => start
  | .write none key value :: earlier =>
      replay (stored start earlier) [(Utf8.encode key, value)]
  | .commit name :: earlier =>
      replay (stored start earlier) ((pending name earlier).getD [])
  | _ :: earlier => stored start earlier

/-- What is found inside a transaction: what it wrote last, or else what has
been carried out. Outside there is only the latter. -/
def visible (start : Sight) (history : List Step) : Option String → Sight
  | none => stored start history
  | some name => fun key =>
      (((pending name history).getD []).lookup key).getD
        (stored start history key)

/-- The transaction that a step needs is open. -/
def Possible (history : List Step) : Step → Prop
  | .begin _ => True
  | .get name _ => ∀ n, name = some n → (pending n history).isSome = true
  | .has name _ => ∀ n, name = some n → (pending n history).isSome = true
  | .write name _ _ => ∀ n, name = some n → (pending n history).isSome = true
  | .scan _ => True
  | .commit name => (pending name history).isSome = true
  | .rollback name => (pending name history).isSome = true
  | .drop name => (pending name history).isSome = true

/-- What a step has to be answered after a history. -/
def Answers (start : Sight) (history : List Step) :
    Step → Except StoreError Reply → Prop
  | .get name key, reply =>
      reply = .ok (.found (visible start history name (Utf8.encode key)))
  | .has name key, reply =>
      reply = .ok (.has (visible start history name (Utf8.encode key)).isSome)
  | .scan first, reply =>
      ∃ rows, reply = .ok (.rows rows) ∧
        Scanned rows first (stored start history)
  | _, reply => reply = .ok .done

/-- The transaction that a step belongs to. -/
def Step.within : Step → Option String
  | .begin name => some name
  | .get name _ => name
  | .has name _ => name
  | .write name _ _ => name
  | .scan _ => none
  | .commit name => some name
  | .rollback name => some name
  | .drop name => some name

/-- No transaction is open, and all records are under texts. -/
structure Idle (db : Database) : Prop where
  closed : db.transactions = []
  texts : Sight.Texts db.committed.get?

/-! ## Transactions by name -/

variable {db db' : Database} {name other : String} {writes : Writes} {v : View}

/-- A lookup looks at the first entry first. -/
theorem lookup_cons {α β : Type} [BEq α] [LawfulBEq α] [DecidableEq α]
    (t : α × β) (rest : List (α × β)) (a : α) :
    (t :: rest).lookup a = if t.1 = a then some t.2 else rest.lookup a := by
  rw [List.lookup_cons]
  by_cases h : t.1 = a
  · simp [h]
  · have hother : (a == t.1) = false := beq_eq_false_iff_ne.mpr (Ne.symm h)
    rw [hother, if_neg h]

/-- A transaction that is closed is not found any more, and the others are. -/
theorem lookup_close (db : Database) (name other : String) :
    (db.close name).transactions.lookup other =
      if name = other then none else db.transactions.lookup other := by
  rw [close]
  induction db.transactions with
  | nil => simp
  | cons t rest ih =>
      by_cases hkey : t.1 = name
      · rw [List.filter_cons_of_neg (by simp [hkey]), ih, lookup_cons, hkey]
        split <;> rfl
      · rw [List.filter_cons_of_pos (by simp [hkey]), lookup_cons,
          lookup_cons, ih]
        by_cases hname : name = other
        · rw [if_pos hname, if_pos hname, if_neg (hname ▸ hkey)]
        · rw [if_neg hname, if_neg hname]

/-- A transaction that is opened is found empty, and the others as they were. -/
theorem lookup_begin (db : Database) (name other : String) :
    (db.begin name).transactions.lookup other =
      if name = other then some .empty else db.transactions.lookup other := by
  rw [begin, lookup_cons, lookup_close]
  split <;> rfl

/-- Writes that are replaced are those of the transactions of that name. -/
theorem lookup_replace (transactions : List (String × Writes))
    (name other : String) (writes : Writes) :
    (transactions.map (replace name writes)).lookup other =
      if name = other then (transactions.lookup other).map fun _ => writes
      else transactions.lookup other := by
  induction transactions with
  | nil => simp
  | cons t rest ih =>
      rw [List.map_cons, lookup_cons, lookup_cons, ih, replace]
      by_cases hkey : t.1 = name
      · rw [if_pos (beq_iff_eq.mpr hkey), hkey]
        by_cases hname : name = other
        · simp [hname]
        · simp [hname]
      · have hsame : (if (t.1 == name) = true then (name, writes) else t) = t :=
          if_neg (by simpa using hkey)
        rw [hsame]
        by_cases hname : name = other
        · rw [if_pos hname, if_pos hname, if_neg (hname ▸ hkey),
            if_neg (hname ▸ hkey)]
        · rw [if_neg hname, if_neg hname]

/-- A view that is still inside its transaction shows the writes of that
transaction from now on. -/
theorem lookup_keep (hwrites : v.pending = some writes) :
    (db.keep (some name) v).transactions.lookup other =
      if name = other then (db.transactions.lookup other).map fun _ => writes
      else db.transactions.lookup other := by
  obtain ⟨committed, pending, refusal, calls⟩ := v
  obtain rfl : pending = some writes := hwrites
  exact lookup_replace ..

/-- A view that has left its transaction closes it. -/
theorem lookup_keep_closed (hclosed : v.pending = none) :
    (db.keep (some name) v).transactions.lookup other =
      if name = other then none else db.transactions.lookup other := by
  obtain ⟨committed, pending, refusal, calls⟩ := v
  obtain rfl : pending = none := hclosed
  exact lookup_close ..

/-- Keeping a view stores the committed part of it. -/
theorem committed_keep (db : Database) (name : Option String) (v : View) :
    (db.keep name v).committed = v.committed := by
  unfold keep
  split <;> rfl

/-- No call of a database is refused. -/
theorem refusal_of_view? {place : Option String}
    (hview : db.view? place = some v) :
    v.refusal v.calls = none := by
  cases place with
  | none =>
      obtain rfl := Option.some.inj hview
      rfl
  | some name =>
      obtain ⟨writes, -, rfl⟩ := Option.map_eq_some_iff.mp hview
      rfl

/-- What an operation does to a view, the database takes over. -/
theorem run?_eq {α : Type} {place : Option String} {op : RecordsM α}
    {r : Except StoreError α} {v' : View} (hview : db.view? place = some v)
    (hrun : Runs op v r v') :
    db.run? place op = some (r, db.keep place v') := by
  have hrun' : Id.run (op.run.run v) = (r, v') := hrun
  rw [run?, hview, Option.map_some]
  show some ((Id.run (op.run.run v)).1,
      db.keep place (Id.run (op.run.run v)).2) = _
  rw [hrun']

/-- Looking for a record that is not refused tells whether there is one. -/
theorem runs_has (key : String) (hfree : v.refusal v.calls = none) :
    Runs (RecordsM.has key) v (.ok (v.lookup (Utf8.encode key)).isSome)
      { v with calls := v.calls + 1 } := by
  unfold RecordsM.has
  rw [Runs.bind_of_ok (RecordsM.read?_of_free key hfree)]
  exact Runs.pure_iff.mpr ⟨rfl, rfl⟩

/-- A write that is not refused is carried out. -/
theorem runs_writing (key : String) (value : Option Bytes)
    (hfree : v.refusal v.calls = none) :
    Runs (writing key value) v (.ok ())
      (View.write { v with calls := v.calls + 1 } (Utf8.encode key) value) := by
  cases value with
  | none => exact RecordsM.delete_of_free key hfree
  | some value => exact RecordsM.put_of_free key value hfree

/-! ## Writes of a history -/

/-- A replay shows the last write of each key over what was there. -/
theorem replay_eq (look : Sight) (writes : List Write) (key : Bytes) :
    replay look writes key = (writes.lookup key).getD (look key) := by
  induction writes with
  | nil => rfl
  | cons w earlier ih =>
      obtain ⟨k, value⟩ := w
      rw [replay, lookup_cons]
      by_cases h : k = key
      · rw [h, Function.update_self, if_pos rfl]
        rfl
      · rw [Function.update_of_ne (Ne.symm h), ih, if_neg h]

/-- A transaction sees what would be stored if it were committed. -/
theorem visible_inside (start : Sight) (history : List Step) (name : String) :
    visible start history (some name) =
      replay (stored start history) ((pending name history).getD []) :=
  funext fun key => (replay_eq _ _ key).symm

/-- Keys of texts stay keys of texts when writes to such keys are replayed. -/
theorem texts_replay {look : Sight} {writes : List Write} (htexts : look.Texts)
    (hwrites : ∀ w ∈ writes, ∃ text, w.1 = Utf8.encode text) :
    (replay look writes).Texts := by
  intro key value hvalue
  rw [replay_eq] at hvalue
  cases hfound : writes.lookup key with
  | none =>
      rw [hfound] at hvalue
      exact htexts key value hvalue
  | some written =>
      obtain ⟨first, rest, rfl, -⟩ := List.lookup_eq_some_iff.mp hfound
      exact hwrites (key, written)
        (List.mem_append_right _ (List.mem_cons_self ..))

/-- Transactions write under texts. -/
theorem texts_pending {log : List Write} {history : List Step}
    (hlog : pending name history = some log) :
    ∀ w ∈ log, ∃ text, w.1 = Utf8.encode text := by
  fun_induction pending name history generalizing log with
  | case1 => cases hlog
  | case2 =>
      cases hlog
      exact nofun
  | case4 key value earlier ih =>
      obtain ⟨log', hlog', rfl⟩ := Option.map_eq_some_iff.mp hlog
      exact List.forall_mem_cons.mpr ⟨⟨_, rfl⟩, ih hlog'⟩
  | case6 => cases hlog
  | case8 => cases hlog
  | case10 => cases hlog
  | case3 _ _ _ ih | case5 _ _ _ _ _ ih | case7 _ _ _ ih | case9 _ _ _ ih
    | case11 _ _ _ ih
  | case12 _ _ _ _ _ _ _ ih => exact ih hlog

/-- The database has what has been carried out, and its transactions the writes
that they made. -/
structure Agrees (start : Sight) (history : List Step) (db : Database) :
    Prop where
  committed : db.committed.get? = stored start history
  pending : ∀ name, (db.transactions.lookup name).map Table.get? =
    (pending name history).map fun writes key => writes.lookup key

namespace Agrees

variable {start : Sight} {history : List Step} {step : Step}
  {reply : Except StoreError Reply}
variable {place : Option String} {n : Nat}

/-- A transaction is open in the database exactly if the history left it
open. -/
theorem isSome_lookup (hagrees : Agrees start history db) (name : String) :
    (db.transactions.lookup name).isSome =
      (Database.pending name history).isSome := by
  have h := congrArg Option.isSome (hagrees.pending name)
  rwa [Option.isSome_map, Option.isSome_map] at h

/-- The writes of an open transaction are those that it made. -/
theorem exists_log (hagrees : Agrees start history db)
    (hwrites : db.transactions.lookup name = some writes) :
    ∃ log, Database.pending name history = some log ∧
      ∀ key, writes.get? key = log.lookup key := by
  have hpending := hagrees.pending name
  rw [hwrites, Option.map_some] at hpending
  obtain ⟨log, hlog, hsame⟩ := Option.map_eq_some_iff.mp hpending.symm
  exact ⟨log, hlog, fun key => (congrFun hsame key).symm⟩

/-- What a view shows is what is visible where the view is. -/
theorem lookup_view (hagrees : Agrees start history db)
    (hview : db.view? place = some v) :
    v.lookup = visible start history place := by
  funext key
  cases place with
  | none =>
      obtain rfl := Option.some.inj hview
      exact congrFun hagrees.committed key
  | some name =>
      obtain ⟨writes, hwrites, rfl⟩ := Option.map_eq_some_iff.mp hview
      obtain ⟨log, hlog, hsame⟩ := hagrees.exists_log hwrites
      simp only [View.lookup, visible, hlog, hagrees.committed,
        Option.bind_some, hsame, Option.getD_some]
      cases log.lookup key <;> rfl

/-- Reading changes nothing but the number of calls, which is forgotten. -/
theorem read (hagrees : Agrees start history db)
    (hview : db.view? place = some v)
    (hstored : stored start (step :: history) = stored start history)
    (hpending : ∀ name,
      Database.pending name (step :: history) = Database.pending name history) :
    Agrees start (step :: history) (db.keep place { v with calls := n }) where
  committed := by
    rw [committed_keep, hstored, ← hagrees.committed]
    cases place with
    | none =>
        obtain rfl := Option.some.inj hview
        rfl
    | some name =>
        obtain ⟨writes, -, rfl⟩ := Option.map_eq_some_iff.mp hview
        rfl
  pending other := by
    rw [hpending, ← hagrees.pending]
    cases place with
    | none => rfl
    | some name =>
        obtain ⟨writes, hwrites, rfl⟩ := Option.map_eq_some_iff.mp hview
        rw [lookup_keep rfl]
        split
        · next h =>
            rw [← h, hwrites]
            rfl
        · rfl

/-- A write from outside is carried out, and one from inside comes to those of
its transaction. -/
theorem write (key : String) (value : Option Bytes)
    (hagrees : Agrees start history db) (hview : db.view? place = some v) :
    Agrees start (.write place key value :: history)
      (db.keep place
        (View.write { v with calls := n } (Utf8.encode key) value)) := by
  cases place with
  | none =>
      obtain rfl := Option.some.inj hview
      refine ⟨?_, hagrees.pending⟩
      funext k
      rw [committed_keep, stored, replay_eq, ← hagrees.committed, lookup_cons]
      show (Records.write _ _ _).get? k = _
      rw [Records.get?_write]
      split <;> rfl
  | some name =>
      obtain ⟨writes, hwrites, rfl⟩ := Option.map_eq_some_iff.mp hview
      refine ⟨?_, fun other => ?_⟩
      · rw [committed_keep]
        exact hagrees.committed
      rw [lookup_keep rfl, Database.pending]
      by_cases h : name = other
      · subst h
        obtain ⟨log, hlog, hsame⟩ := hagrees.exists_log hwrites
        rw [if_pos rfl, if_pos rfl, hwrites, hlog]
        refine congrArg some (funext fun k => ?_)
        show _ = List.lookup k ((Utf8.encode key, value) :: log)
        rw [Table.get?_insert, lookup_cons, hsame]
      · rw [if_neg h, if_neg h]
        exact hagrees.pending other

/-- A commit carries out all writes of the transaction. -/
theorem commit (hagrees : Agrees start history db)
    (hview : db.view? (some name) = some v) :
    Agrees start (.commit name :: history) (db.keep (some name) v.commit) where
  committed := by
    rw [committed_keep, View.get?_commit, hagrees.lookup_view hview,
      visible_inside, stored]
  pending other := by
    rw [lookup_keep_closed (View.pending_commit v), Database.pending]
    split
    · rfl
    · exact hagrees.pending other

/-- What closes a transaction otherwise carries out nothing. -/
theorem rollback (hagrees : Agrees start history db)
    (hview : db.view? (some name) = some v)
    (hstored : stored start (step :: history) = stored start history)
    (hpending : ∀ other, Database.pending other (step :: history) =
      if name = other then none else Database.pending other history) :
    Agrees start (step :: history) (db.keep (some name) v.rollback) where
  committed := by
    obtain ⟨writes, -, rfl⟩ := Option.map_eq_some_iff.mp hview
    rw [committed_keep, View.committed_rollback, hstored]
    exact hagrees.committed
  pending other := by
    rw [lookup_keep_closed (View.pending_rollback v), hpending]
    split
    · rfl
    · exact hagrees.pending other

/-- Opening a transaction agrees with the history that has it at its front. -/
theorem begin (name : String) (hagrees : Agrees start history db) :
    Agrees start (.begin name :: history) (db.begin name) where
  committed := hagrees.committed
  pending other := by
    rw [lookup_begin, Database.pending]
    split
    · rfl
    · exact hagrees.pending other

/-- A step of an open transaction can be done, and no step of a closed one. -/
theorem isSome_view? (hagrees : Agrees start history db)
    (place : Option String) :
    (db.view? place).isSome = true ↔
      ∀ name, place = some name →
      (Database.pending name history).isSome = true := by
  cases place with
  | none => exact iff_of_true rfl nofun
  | some name =>
      rw [view?, Option.isSome_map, hagrees.isSome_lookup]
      simp

/-- A step can be done exactly if the history allows it. -/
theorem isSome_perform_iff (hagrees : Agrees start history db) (step : Step) :
    (db.perform step).isSome = true ↔ Possible history step := by
  cases step with
  | begin name => exact iff_of_true rfl trivial
  | scan first => exact iff_of_true rfl trivial
  | get place key | has place key | write place key value =>
      rw [perform, run?, Option.isSome_map]
      exact hagrees.isSome_view? place
  | commit name | rollback name | drop name =>
      simp only [perform, commit?, rollback?, Option.isSome_map]
      exact (hagrees.isSome_view? (some name)).trans (by simp [Possible])

/-- A step is answered as the history says, and the database goes on with it. -/
theorem answers {db' : Database} (hagrees : Agrees start history db)
    (htexts : (stored start history).Texts)
    (hstep : db.perform step = some (reply, db')) :
    Answers start history step reply ∧ Agrees start (step :: history) db' := by
  cases step with
  | begin name =>
      cases hstep
      exact ⟨rfl, hagrees.begin name⟩
  | get place key =>
      obtain ⟨v, hview, -⟩ := Option.map_eq_some_iff.mp hstep
      have hread := RecordsM.read?_of_free key (refusal_of_view? hview)
      have hdone : Runs (Reply.found <$> RecordsM.read? key) v _ _ :=
        Runs.map_iff.mpr ⟨_, hread, rfl⟩
      cases hstep.symm.trans (run?_eq hview hdone)
      rw [Answers, ← hagrees.lookup_view hview]
      exact ⟨rfl, hagrees.read hview rfl fun _ => rfl⟩
  | has place key =>
      obtain ⟨v, hview, -⟩ := Option.map_eq_some_iff.mp hstep
      have hhas := runs_has key (refusal_of_view? hview)
      have hdone : Runs (Reply.has <$> RecordsM.has key) v _ _ :=
        Runs.map_iff.mpr ⟨_, hhas, rfl⟩
      cases hstep.symm.trans (run?_eq hview hdone)
      rw [Answers, ← hagrees.lookup_view hview]
      exact ⟨rfl, hagrees.read hview rfl fun _ => rfl⟩
  | write place key value =>
      obtain ⟨v, hview, -⟩ := Option.map_eq_some_iff.mp hstep
      have hwriting := runs_writing key value (refusal_of_view? hview)
      have hdone : Runs ((fun _ => Reply.done) <$> writing key value) v _ _ :=
        Runs.map_iff.mpr ⟨_, hwriting, rfl⟩
      cases hstep.symm.trans (run?_eq hview hdone)
      exact ⟨rfl, hagrees.write key value hview⟩
  | scan first =>
      cases hstep
      refine ⟨?_, ⟨hagrees.committed, hagrees.pending⟩⟩
      have htexts' : Sight.Texts db.committed.get? := hagrees.committed ▸ htexts
      obtain ⟨rows, hrows, hscanned⟩ := Records.scan_of_texts htexts' first
      rw [hrows]
      exact ⟨rows, rfl, hagrees.committed ▸ hscanned⟩
  | commit name =>
      obtain ⟨_, hcommit, hreply⟩ := Option.map_eq_some_iff.mp hstep
      obtain ⟨v, hview, rfl⟩ := Option.map_eq_some_iff.mp hcommit
      cases hreply
      exact ⟨rfl, hagrees.commit hview⟩
  | rollback name | drop name =>
      obtain ⟨_, hrollback, hreply⟩ := Option.map_eq_some_iff.mp hstep
      obtain ⟨v, hview, rfl⟩ := Option.map_eq_some_iff.mp hrollback
      cases hreply
      exact ⟨rfl, hagrees.rollback hview rfl fun _ => rfl⟩

end Agrees

variable {start : Database} {history : List Step}

/-- Whatever has been carried out is under texts. -/
theorem texts_stored {look : Sight} (htexts : look.Texts)
    (history : List Step) :
    (stored look history).Texts := by
  fun_induction stored look history with
  | case1 => exact htexts
  | case2 key value earlier ih =>
      exact texts_replay ih (List.forall_mem_singleton.mpr ⟨key, rfl⟩)
  | case3 name earlier ih =>
      refine texts_replay ih ?_
      cases hlog : pending name earlier with
      | none => exact nofun
      | some log => exact texts_pending hlog
  | case4 _ _ _ _ ih => exact ih

/-- A database without transactions agrees with the empty history. -/
theorem agrees_of_idle (hidle : start.Idle) :
    Agrees start.committed.get? [] start where
  committed := rfl
  pending name := by
    rw [hidle.closed]
    rfl

/-- After every history the database is as the history says. -/
theorem agrees_of_played (hidle : start.Idle)
    (hplayed : Played start history db) :
    Agrees start.committed.get? history db := by
  induction hplayed with
  | start => exact agrees_of_idle hidle
  | step _ hstep ih => exact (ih.answers (texts_stored hidle.texts _) hstep).2

/-! ## Steps that leave no trace -/

/-- The history without the steps of a transaction. -/
def without (name : String) (history : List Step) : List Step :=
  history.filter fun step => step.within ≠ some name

/-- A step of the transaction is left out without it. -/
theorem without_cons_of_within {step : Step} (hstep : step.within = some name)
    (earlier : List Step) :
    without name (step :: earlier) = without name earlier :=
  List.filter_cons_of_neg (by simpa using hstep)

/-- A step outside the transaction is not left out. -/
theorem without_cons_of_ne {step : Step} (hstep : step.within ≠ some name)
    (earlier : List Step) :
    without name (step :: earlier) = step :: without name earlier :=
  List.filter_cons_of_pos (by simpa using hstep)

/-- A step outside the transaction leaves the transaction as it was. -/
theorem pending_cons_of_ne {step : Step} (hstep : step.within ≠ some name)
    (earlier : List Step) :
    pending name (step :: earlier) = pending name earlier := by
  cases step with
  | get place key | has place key | scan first => rfl
  | begin other | commit other | rollback other | drop other =>
      exact if_neg fun h => hstep (congrArg some h)
  | write place key value =>
      cases place with
      | none => rfl
      | some other => exact if_neg fun h => hstep (congrArg some h)

/-- What is pending depends on what was pending before, not on how. -/
theorem pending_cons_congr {earlier earlier' : List Step} (step : Step)
    (hsame : pending name earlier = pending name earlier') :
    pending name (step :: earlier) = pending name (step :: earlier') := by
  cases step with
  | get place key | has place key | scan first => exact hsame
  | begin other | commit other | rollback other | drop other =>
      rw [pending, pending, hsame]
  | write place key value =>
      cases place with
      | none => exact hsame
      | some other => rw [pending, pending, hsame]

/-- Transactions do not see one another. -/
theorem pending_without (history : List Step) (hother : other ≠ name) :
    pending other (without name history) = pending other history := by
  induction history with
  | nil => rfl
  | cons step earlier ih =>
      by_cases hstep : step.within = some name
      · have hforeign : step.within ≠ some other := by
          rw [hstep]
          exact fun h => hother (Option.some.inj h).symm
        rw [without_cons_of_within hstep, ih, pending_cons_of_ne hforeign]
      · rw [without_cons_of_ne hstep]
        exact pending_cons_congr step ih

/-- A transaction that is never committed leaves no trace. -/
theorem stored_without (look : Sight) {history : List Step}
    (hnever : .commit name ∉ history) :
    stored look (without name history) = stored look history := by
  induction history with
  | nil => rfl
  | cons step earlier ih =>
      obtain ⟨hthis, hearlier⟩ := not_or.mp (mt List.mem_cons.mpr hnever)
      have hstored := ih hearlier
      by_cases hstep : step.within = some name
      · rw [without_cons_of_within hstep, hstored]
        cases step with
        | commit other =>
            obtain rfl := Option.some.inj hstep
            exact absurd rfl hthis
        | write place key value =>
            obtain rfl : place = some name := hstep
            rfl
        | begin other | get place key | has place key | scan first
          | rollback other
        | drop other => rfl
      · rw [without_cons_of_ne hstep]
        cases step with
        | commit other =>
            have hother : other ≠ name := fun h => hstep (congrArg some h)
            rw [stored, stored, hstored, pending_without earlier hother]
        | write place key value =>
            cases place with
            | none => rw [stored, stored, hstored]
            | some other => exact hstored
        | begin other | get place key | has place key | scan first
          | rollback other
        | drop other => exact hstored

/-- Whatever the users of a database have done, what they find is what the
history says: a transaction finds what it wrote last, or else what has been
carried out; from outside, and by a scan, only the latter is found, which is
also what the database has.  A step can be done exactly if its transaction is
open, and a transaction that has not been committed is invisible to all
others. -/
theorem isolated_of_played (hidle : start.Idle)
    (hplayed : Played start history db) :
    db.committed.get? = stored start.committed.get? history ∧
      (∀ step, (db.perform step).isSome = true ↔ Possible history step) ∧
      (∀ step reply db', db.perform step = some (reply, db') →
        Answers start.committed.get? history step reply) ∧
      ∀ name, .commit name ∉ history → ∀ place ≠ some name,
        visible start.committed.get? history place =
          visible start.committed.get? (without name history) place := by
  have hagrees := agrees_of_played hidle hplayed
  refine ⟨hagrees.committed, hagrees.isSome_perform_iff,
    fun step reply db' hstep => ?_, fun name hnever place hplace => ?_⟩
  · exact (hagrees.answers (texts_stored hidle.texts history) hstep).1
  · have hstored := stored_without start.committed.get? hnever
    cases place with
    | none => exact hstored.symm
    | some other =>
        have hother : other ≠ name := fun h => hplace (congrArg some h)
        rw [visible_inside, visible_inside, hstored,
          pending_without history hother]

/-- Two transactions that write the same key, which is then written from outside
as well; one is committed, and then the other removes the key. -/
def interleaved : List Step :=
  [.write (some "b") "k" none, .commit "a", .write none "k" (some [2]),
    .write (some "b") "k" (some [3]), .write (some "a") "k" (some [1]),
    .begin "b", .begin "a"]

/-- Two transactions interleave here, and only what was committed is seen from
outside. -/
theorem isolated_of_interleaved :
    ∃ db, Played .empty interleaved db ∧
      db.committed.get? (Utf8.encode "k") = some [1] ∧
      visible Database.empty.committed.get? interleaved (some "b")
        (Utf8.encode "k") = none := by
  have hidle : Idle .empty := ⟨rfl, fun _ _ h => nomatch h⟩
  have hplayed : Played .empty interleaved _ :=
    .step (.step
      (.step (.step (.step (.step (.step .start rfl) rfl) rfl) rfl) rfl) rfl)
        rfl
  have hstored := (isolated_of_played hidle hplayed).1
  refine ⟨_, hplayed, ?_, by decide⟩
  rw [hstored]
  decide

end DidVault.Database
