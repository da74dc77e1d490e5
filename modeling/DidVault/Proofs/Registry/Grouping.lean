import DidVault.Proofs.Records.Scan
import DidVault.Proofs.Registry.Atomic
import DidVault.Proofs.Registry.Steps

/-!
# Calls that are grouped in one transaction

The users of the registry read and write, and decide by the answers how to go on
(`Session`).  They may do so inside one transaction and commit it at the end, or
outside of transactions.

What is written and read shows the same records in both ways: a commit may as
well be made before each step as behind it (`commutes`).  A call outside a
transaction commits at its own end, and so it ends where its steps would have
led behind the commits before it (`Call.run_commit`).  Therefore the answers are
the same, and so is the desk at the end (`Session.play_of_grouped`).  Only a
call that fails differs, since it is taken back alone.
-/

namespace DidVault

/-- Tables in which the same is found are equal. -/
theorem Table.eq_of_get? {β : Type} {t t' : Table β} (hget : t.get? = t'.get?) :
    t = t' := by
  obtain ⟨entries, hsorted⟩ := t
  obtain ⟨entries', hsorted'⟩ := t'
  have hnodup : ∀ {list : List (Bytes × β)},
      list.Pairwise (fun a b => Bytes.before a.1 b.1 = true) → list.Nodup := by
    intro list hlist
    refine hlist.imp fun {a b} hbefore heq => ?_
    rw [heq, Bytes.before_irrefl] at hbefore
    cases hbefore
  have hperm : entries.Perm entries' := by
    refine (List.perm_ext_iff_of_nodup (hnodup hsorted) (hnodup hsorted')).mpr
      fun e => ?_
    rw [Table.mem_entries_iff (t := ⟨entries, hsorted⟩), hget,
      ← Table.mem_entries_iff]
  have hsame : entries = entries' := by
    refine hperm.eq_of_pairwise (fun a b _ _ hab hba => ?_) hsorted hsorted'
    have hself := Bytes.before_trans hab hba
    rw [Bytes.before_irrefl] at hself
    cases hself
  subst hsame
  rfl

namespace View

variable {v : View}

/-- Outside a transaction a commit does nothing. -/
theorem commit_of_closed (hclosed : v.pending = none) : v.commit = v := by
  obtain ⟨committed, pending, refusal, calls⟩ := v
  cases hclosed
  rfl

/-- A transaction in which nothing was written leaves the records as they
were. -/
theorem commit_begin (hclosed : v.pending = none) : v.begin.commit = v := by
  obtain ⟨committed, pending, refusal, calls⟩ := v
  cases hclosed
  rfl

/-- What is written last in a transaction may as well be written behind its
commit. -/
theorem commit_write (v : View) (key : Bytes) (value : Option Bytes) :
    (v.write key value).commit = v.commit.write key value := by
  have hcommitted :
      (v.write key value).commit.committed =
        (v.commit.write key value).committed := by
    refine Table.eq_of_get? ?_
    rw [get?_commit, ← lookup_of_closed (v := v.commit.write key value) rfl]
    funext k
    rw [lookup_write, lookup_write, lookup_commit]
  obtain ⟨committed, pending, refusal, calls⟩ := v
  cases pending with
  | none => rfl
  | some writes => exact congrArg (View.mk · none refusal calls) hcommitted

end View

/-- Opens a transaction at the desk. -/
def Desk.begin (d : Desk) : Desk := { d with view := d.view.begin }

/-- Commits the transaction at the desk, if one is open. -/
def Desk.commit (d : Desk) : Desk := { d with view := d.view.commit }

/-- At a desk outside a transaction a commit does nothing. -/
theorem Desk.commit_of_closed {d : Desk} (hclosed : d.view.pending = none) :
    d.commit = d := by
  rw [Desk.commit, View.commit_of_closed hclosed]

/-- Opening a transaction and committing it does nothing. -/
theorem Desk.commit_begin {d : Desk} (hclosed : d.view.pending = none) :
    d.begin.commit = d := by
  show { d with view := d.view.begin.commit } = d
  rw [View.commit_begin hclosed]

/-- Counting a call commutes with the commit. -/
theorem RecordsM.commutes_call : Commutes View.commit call := by
  intro v r v' hrun
  obtain ⟨rfl, rfl⟩ := call_iff.mp hrun
  exact call_iff.mpr ⟨rfl, rfl⟩

/-- A write that is counted may as well be made behind a commit. -/
theorem RecordsM.commutes_write (key : String) (value : Option Bytes) :
    Commutes View.commit
      (do call; modify (·.write (Utf8.encode key) value)) := by
  refine (Closed.commutes _).bind commutes_call fun _ v r v' hrun => ?_
  obtain ⟨rfl, rfl⟩ := Runs.modify_iff.mp hrun
  exact Runs.modify_iff.mpr ⟨rfl, View.commit_write ..⟩

/-- Every step may as well be made behind a commit. -/
theorem commutes :
    Pervades (Commutes View.commit) (Commutes Desk.commit)
      (Commutes (Prod.map id Desk.commit)) where
  onRecords := .commutes _
  read? key := by
    refine (Closed.commutes _).bind RecordsM.commutes_call fun _ v r v' hrun =>
      ?_
    rw [Runs.get_bind] at hrun ⊢
    obtain ⟨rfl, rfl⟩ := Runs.pure_iff.mp hrun
    exact Runs.pure_iff.mpr ⟨by rw [View.lookup_commit], rfl⟩
  put key value := RecordsM.commutes_write key (some value)
  delete key := RecordsM.commutes_write key none
  onDesk := .commutes _
  records hop d r d' hrun := by
    obtain ⟨r₀, v', h, rfl, rfl⟩ := DeskM.records_iff.mp hrun
    exact DeskM.records_iff.mpr ⟨r₀, v'.commit, hop h, rfl, rfl⟩
  draw := DeskM.commutes_draw (f := Desk.commit) (fun _ => rfl) fun _ _ => rfl
  takeOrMake :=
    DeskM.takeOrMake_of_closed (.commutes _) (DeskM.commutes_take View.commit)
      (DeskM.commutes_makePair View.commit)
  onIdentifiers := .commutes _
  identifier := IssueM.commutes_identifier _
  setIdentifier := IssueM.commutes_setIdentifier _
  atDesk hop := by
    rintro ⟨i, d⟩ r s' hrun
    obtain ⟨d', h, rfl⟩ := IssueM.atDesk_iff.mp hrun
    exact IssueM.atDesk_iff.mpr ⟨d'.commit, hop h, rfl⟩
  onIdentifier i hop d r d' hrun := by
    obtain ⟨r₀, i', h, rfl⟩ := IssueM.onIdentifier_iff.mp hrun
    exact IssueM.onIdentifier_iff.mpr ⟨r₀, i', hop h, rfl⟩

/-- A call that succeeds in a transaction succeeds behind the commit of what was
written before it, with the same answer. -/
theorem Call.run_commit {d d' : Desk} {answer : Answer} (c : Call)
    (hrun : Runs c.run d (.ok answer) d') :
    Runs c.run d.commit (.ok answer) d'.commit := by
  by_cases hopen : d.view.pending.isSome = true
  · have hsteps := commutes.steps c ((c.run_of_open hopen).mp hrun)
    -- the steps are also made in the transaction of the call itself, which is
    -- then committed
    obtain ⟨r, d₁, hbegun⟩ := Runs.ends c.steps d.commit.begin
    have hcommitted := commutes.steps c hbegun
    rw [Desk.commit_begin rfl] at hcommitted
    obtain ⟨rfl, hsame⟩ := Runs.unique hcommitted hsteps
    exact (c.run_of_closed rfl).mpr ⟨d₁, hbegun, hsame.symm⟩
  · have hclosed : d.view.pending = none := by simpa using hopen
    rw [Desk.commit_of_closed hclosed,
      Desk.commit_of_closed (c.pending_of_run hclosed hrun)]
    exact hrun

/-- What users ask of the registry: a call that writes, or something that they
want to read. -/
inductive Request where
  | write (call : Call)
  | document (lookup : Lookup)
  | wrapped (account : String)
  | didOf (account : String)
  | accountOf (did : String)
  deriving Repr, DecidableEq

/-- What users are told. -/
inductive Reply where
  | written (answer : Answer)
  | document (canonical : Bytes)
  | wrapped (found : Option Bytes)
  | didOf (found : Option String)
  | accountOf (found : Option String)
  deriving Repr, DecidableEq

/-- Does what is asked for. -/
def Request.run : Request → DeskM Reply
  | write call => .written <$> call.run
  | document lookup => .document <$> Registry.document lookup
  | wrapped account => .wrapped <$> Registry.wrapped? account
  | didOf account => .didOf <$> Registry.didOf? account
  | accountOf did => .accountOf <$> Registry.accountOf? did

/-- Requests one after the other, each of which may depend on the replies before
it. -/
inductive Session where
  | stop
  | ask (request : Request) (next : Except Error Reply → Session)

/-- A request with its reply. -/
structure Exchange where
  request : Request
  reply : Except Error Reply
  deriving DecidableEq

/-- A request to write did not fail. -/
def Exchange.Succeeds (e : Exchange) : Prop :=
  ∀ call, e.request = .write call → ∃ reply, e.reply = .ok reply

/-- Makes the requests of a session at a desk. -/
def Session.play : Session → Desk → List Exchange × Desk
  | stop, d => ([], d)
  | ask request next, d =>
    let (reply, d₁) := Id.run (request.run.run.run d)
    let (rest, d') := (next reply).play d₁
    (⟨request, reply⟩ :: rest, d')

/-- A request may as well be made behind a commit, unless it is to write and
fails. -/
theorem Request.run_commit {request : Request} {reply : Except Error Reply}
    {d d' : Desk} (hrun : Runs request.run d reply d')
    (hsucceeds : Exchange.Succeeds ⟨request, reply⟩) :
    Runs request.run d.commit reply d'.commit := by
  have hread : ∀ {α : Type} {op : DeskM α} {told : α → Reply},
      Commutes Desk.commit op →
      Runs (told <$> op) d reply d' →
      Runs (told <$> op) d.commit reply d'.commit :=
    fun hop hrun => commutes.onDesk.map hop hrun
  cases request with
  | write call =>
      obtain ⟨told, rfl⟩ := hsucceeds call rfl
      obtain ⟨answer, hanswer, rfl⟩ := Runs.map_ok.mp hrun
      exact Runs.map_ok.mpr ⟨answer, call.run_commit hanswer, rfl⟩
  | document lookup => exact hread (commutes.document lookup) hrun
  | wrapped account => exact hread (commutes.wrapped? account) hrun
  | didOf account => exact hread (commutes.didOf? account) hrun
  | accountOf did => exact hread (commutes.accountOf? did) hrun

namespace Session

variable {d : Desk}

/-- A session that asks plays its first request and goes on with the reply. -/
theorem play_ask {request : Request} {reply : Except Error Reply} {d₁ : Desk}
    (next : Except Error Reply → Session) (hrun : Runs request.run d reply d₁) :
    (ask request next).play d =
      (⟨request, reply⟩ :: ((next reply).play d₁).1,
        ((next reply).play d₁).2) := by
  have hdone : Id.run (request.run.run.run d) = (reply, d₁) := hrun
  rw [play, hdone]

/-- A session may as well begin behind a commit, unless a request to write fails
in it. -/
theorem play_commit (session : Session)
    (hwrites : ∀ e ∈ (session.play d).1, e.Succeeds) :
    session.play d.commit =
      ((session.play d).1, (session.play d).2.commit) := by
  induction session generalizing d with
  | stop => rfl
  | ask request next ih =>
      obtain ⟨reply, d₁, hrun⟩ := Runs.ends request.run d
      rw [play_ask next hrun] at hwrites ⊢
      obtain ⟨hfirst, hrest⟩ := List.forall_mem_cons.mp hwrites
      rw [play_ask next (Request.run_commit hrun hfirst), ih reply hrest]

/-- In one transaction, which is committed at the end, a session is told the
same as it is without one, and leaves the same desk: the same committed records,
and the same keys and random bytes to come.  It is only asked that no request to
write fails in the transaction. -/
theorem play_of_grouped (session : Session) (hclosed : d.view.pending = none)
    (hwrites : ∀ e ∈ (session.play d.begin).1, e.Succeeds) :
    session.play d =
      ((session.play d.begin).1, (session.play d.begin).2.commit) := by
  have hplayed := session.play_commit hwrites
  rw [Desk.commit_begin hclosed] at hplayed
  exact hplayed

/-- Indexes an account, gives its DID to another one as soon as it is found, and
asks what is left of the first entry. -/
def reassigning : Session :=
  .ask (.write (.saveIndex "account" "did")) fun _ =>
    .ask (.didOf "account") fun
      | .ok (.didOf (some did)) =>
          .ask (.write (.saveIndex "other" did)) fun _ =>
            .ask (.didOf "account") fun _ =>
              .ask (.accountOf did) fun _ => .stop
      | _ => .stop

/-- What is written and removed in a transaction is found there, and the same
without one. -/
theorem play_of_reassigning :
    reassigning.play (.waiting ⟨"private", "public"⟩ none) =
      ([⟨.write (.saveIndex "account" "did"), .ok (.written .indexed)⟩,
          ⟨.didOf "account", .ok (.didOf (some "did"))⟩,
          ⟨.write (.saveIndex "other" "did"), .ok (.written .indexed)⟩,
          ⟨.didOf "account", .ok (.didOf none)⟩,
          ⟨.accountOf "did", .ok (.accountOf (some "other"))⟩],
        (reassigning.play
          (Desk.waiting ⟨"private", "public"⟩ none).begin).2.commit) := by
  have htold :
      (reassigning.play (Desk.waiting ⟨"private", "public"⟩ none).begin).1 =
        [⟨.write (.saveIndex "account" "did"), .ok (.written .indexed)⟩,
          ⟨.didOf "account", .ok (.didOf (some "did"))⟩,
        ⟨.write (.saveIndex "other" "did"), .ok (.written .indexed)⟩,
        ⟨.didOf "account", .ok (.didOf none)⟩,
        ⟨.accountOf "did", .ok (.accountOf (some "other"))⟩] := by
    decide +kernel
  have hwrites :
      ∀ e ∈ (reassigning.play
        (Desk.waiting ⟨"private", "public"⟩ none).begin).1, e.Succeeds := by
    rw [htold]
    simp [Exchange.Succeeds]
  rw [← htold]
  exact play_of_grouped reassigning rfl hwrites

end Session

end DidVault
