import DidVault.Proofs.Keys.Uses
import Mathlib.Data.List.Nodup

/-!
# Pairs are used once

Behind every history of operations, the pairs that were handed out and those
that wait are different makings of the source, and every pair that was ever made
to wait is one of them, under the purpose for which it waited (`Accounted`).
One step moves a pair from the pool to those handed out, or adds a new pair to
either; failures and the end of transactions move nothing.  Therefore no pair is
handed out twice, and none for another purpose than its own
(`Accounted.singleUse`).
-/

namespace DidVault

/-- The pairs that a log hands out, and what for. -/
def handedOut (log : List KeyEvent) : List (KeyPurpose × KeyPair) :=
  log.filterMap fun
    | .handed purpose pair => some (purpose, pair)
    | .filled .. => none

/-- The pairs that wait, and what for. -/
def KeyPool.waiting (pool : KeyPool) : List (KeyPurpose × KeyPair) :=
  KeyPurpose.all.filterMap fun purpose => (pool.get purpose).map (purpose, ·)

/-- The pairs that were handed out or wait, and what for. -/
def KeyPool.known (pool : KeyPool) (log : List KeyEvent) :
    List (KeyPurpose × KeyPair) :=
  handedOut log ++ pool.waiting

section Lists

variable {log : List KeyEvent} {pool : KeyPool} {purpose : KeyPurpose}
  {pair : KeyPair}

/-- A pair was handed out if the log says so. -/
theorem mem_handedOut :
    (purpose, pair) ∈ handedOut log ↔ .handed purpose pair ∈ log := by
  unfold handedOut
  rw [List.mem_filterMap]
  constructor
  · rintro ⟨_ | ⟨p, a⟩, he, h⟩
    · cases h
    · cases h
      exact he
  · exact fun h => ⟨_, h, rfl⟩

/-- One more handing out is one more pair handed out. -/
theorem handedOut_append_handed :
    handedOut (log ++ [.handed purpose pair]) =
      handedOut log ++ [(purpose, pair)] :=
  List.filterMap_append

/-- Filling the pool hands nothing out. -/
theorem handedOut_append_filled :
    handedOut (log ++ [.filled purpose pair]) = handedOut log :=
  List.filterMap_append.trans (List.append_nil _)

namespace KeyPool

/-- The waiting pairs are those of the pool's two slots. -/
theorem mem_waiting :
    (purpose, pair) ∈ pool.waiting ↔ pool.get purpose = some pair := by
  cases purpose <;> simp [waiting, KeyPurpose.all]

/-- Whoever takes the pair that waits for a purpose leaves the others. -/
theorem waiting_perm (pool : KeyPool) (purpose : KeyPurpose) :
    pool.waiting.Perm
      ((pool.get purpose).toList.map (purpose, ·) ++
        (pool.set purpose none).waiting) := by
  obtain ⟨_ | a, _ | b⟩ := pool <;> cases purpose <;>
    first
      | exact .refl _
      | exact .swap ..

/-- A pair that is handed out from its slot was accounted for. -/
theorem known_of_taken (hget : pool.get purpose = some pair) :
    ((pool.set purpose none).known (log ++ [.handed purpose pair])).Perm
      (pool.known log) := by
  have hperm := pool.waiting_perm purpose
  rw [hget] at hperm
  rw [known, handedOut_append_handed, List.append_assoc]
  exact hperm.symm.append_left _

/-- A pair that is handed out without having waited is accounted for from then
on. -/
theorem known_of_handed :
    (pool.known (log ++ [.handed purpose pair])).Perm
      ((purpose, pair) :: pool.known log) := by
  rw [known, handedOut_append_handed, List.append_assoc]
  exact List.perm_middle

/-- A pair that is put into an empty slot is accounted for from then on. -/
theorem known_of_filled (hempty : pool.get purpose = none) :
    ((pool.set purpose (some pair)).known (log ++ [.filled purpose pair])).Perm
      ((purpose, pair) :: pool.known log) := by
  have hperm := (pool.set purpose (some pair)).waiting_perm purpose
  have hreset : (pool.set purpose (some pair)).set purpose none = pool := by
    rw [← set_none_of_empty hempty]
    cases purpose <;> rfl
  rw [get_set_self, hreset] at hperm
  rw [known, handedOut_append_filled]
  exact (hperm.append_left _).trans List.perm_middle

end KeyPool

end Lists

variable {κ : Type} {mark : KeyPair → κ} {start d d' : Desk}
  {log more : List KeyEvent}
variable {purpose : KeyPurpose} {pair : KeyPair}

/-- The pairs that the source has still to give have different marks.  A mark is
what pairs are told apart by, such as their public keys. -/
def KeySource.Varied (mark : KeyPair → κ) (source : KeySource) : Prop :=
  ∀ ⦃m n p q⦄, source.asked ≤ m → m < n → source.outcome m = .ok p →
    source.outcome n = .ok q →
    mark p ≠ mark q

/-- What is true of a desk and of all that has been done since the start. -/
structure Accounted (mark : KeyPair → κ) (start : Desk) (log : List KeyEvent)
    (d : Desk) : Prop where
  outcome : d.source.outcome = start.source.outcome
  asked : start.source.asked ≤ d.source.asked
  /-- The pairs that were handed out or wait were made since the start. -/
  made : ∀ given ∈ d.pool.known log, ∃ n ≥ start.source.asked,
    n < d.source.asked ∧
    start.source.outcome n = .ok given.2
  once : ((d.pool.known log).map (mark ·.2)).Nodup
  filled : ∀ ⦃purpose pair⦄, .filled purpose pair ∈ log →
    (purpose, pair) ∈ d.pool.known log

namespace Accounted

/-- A pair that waited has been handed out. -/
theorem of_taken (h : Accounted mark start log d)
    (hget : d.pool.get purpose = some pair) :
    Accounted mark start (log ++ [.handed purpose pair])
      { d with pool := d.pool.set purpose none } := by
  have hperm :
      ((d.pool.set purpose none).known (log ++ [.handed purpose pair])).Perm
        (d.pool.known log) := KeyPool.known_of_taken hget
  refine ⟨h.outcome, h.asked, fun given hgiven =>
    h.made given (hperm.mem_iff.mp hgiven),
      (hperm.map _).nodup_iff.mpr h.once, fun p a hfilled =>
        hperm.mem_iff.mpr (h.filled ?_)⟩
  refine (List.mem_append.mp hfilled).resolve_right fun hmem => ?_
  cases List.mem_singleton.mp hmem

/-- A pair that could not be made is not accounted for. -/
theorem of_failed {e : Error} (h : Accounted mark start log d)
    (hrun : Runs DeskM.makePair d (.error e) d') :
    Accounted mark start log d' := by
  obtain ⟨-, rfl⟩ := DeskM.makePair_iff.mp hrun
  refine ⟨h.outcome, h.asked.trans (Nat.le_succ _), fun given hgiven =>
    ?_, h.once, h.filled⟩
  obtain ⟨n, hfirst, hlast, hn⟩ := h.made given hgiven
  exact ⟨n, hfirst, hlast.trans (Nat.lt_succ_self _), hn⟩

/-- The next pair of the source has been handed out or made to wait. -/
theorem of_made (h : Accounted mark start log d)
    (hvaried : start.source.Varied mark)
    (hsource : d'.source = { d.source with asked := d.source.asked + 1 })
    (hmade : d.source.outcome d.source.asked = .ok pair)
    (hperm : (d'.pool.known (log ++ more)).Perm
      ((purpose, pair) :: d.pool.known log))
    (hmore : ∀ p a, .filled p a ∈ more → (p, a) = (purpose, pair)) :
    Accounted mark start (log ++ more) d' where
  outcome := by
    rw [hsource]
    exact h.outcome
  asked := by
    rw [hsource]
    exact h.asked.trans (Nat.le_succ _)
  made given hgiven := by
    rw [hsource]
    rcases List.mem_cons.mp (hperm.mem_iff.mp hgiven) with rfl | hold
    · exact ⟨d.source.asked, h.asked, Nat.lt_succ_self _, h.outcome ▸ hmade⟩
    · obtain ⟨n, hfirst, hlast, hn⟩ := h.made given hold
      exact ⟨n, hfirst, hlast.trans (Nat.lt_succ_self _), hn⟩
  once := by
    rw [(hperm.map _).nodup_iff, List.map_cons, List.nodup_cons]
    refine ⟨fun hmem => ?_, h.once⟩
    -- whatever is accounted for was made before the pair
    obtain ⟨given, hgiven, hsame⟩ := List.mem_map.mp hmem
    obtain ⟨n, hfirst, hlast, hn⟩ := h.made given hgiven
    exact hvaried hfirst hlast hn (h.outcome ▸ hmade) hsame
  filled p a hfilled := by
    rw [hperm.mem_iff, List.mem_cons]
    rcases List.mem_append.mp hfilled with hold | hnew
    · exact .inr (h.filled hold)
    · exact .inl (hmore p a hnew)

/-- The records and the random bytes may change. -/
theorem other (h : Accounted mark start log d) (view : View) (entropy : Bytes) :
    Accounted mark start log { d with view, entropy } :=
  ⟨h.outcome, h.asked, h.made, h.once, h.filled⟩

/-- What stays apart from the keys leaves the account of them as it was. -/
theorem of_apart {α : Type} {op : DeskM α} {r : Except Error α}
    (h : Accounted mark start log d) (hapart : Apart op)
    (hrun : Runs op d r d') :
    Accounted mark start log d' := by
  obtain ⟨hpool, hsource⟩ := hapart.supply hrun
  obtain ⟨view, pool, source, entropy⟩ := d'
  cases hpool
  cases hsource
  exact h.other view entropy

/-- Taking a pair from the pool is accounted for. -/
theorem of_take {found : Option KeyPair} (h : Accounted mark start log d)
    (hrun : Runs (DeskM.take purpose) d (.ok found) d') :
    Accounted mark start (log ++ found.toList.map (.handed purpose)) d' := by
  obtain ⟨hfound, rfl⟩ := DeskM.take_iff.mp hrun
  obtain rfl := Except.ok.inj hfound
  cases hget : d.pool.get purpose with
  | none =>
      rw [KeyPool.set_none_of_empty hget, Option.toList_none, List.map_nil,
        List.append_nil]
      exact h
  | some pair => exact h.of_taken hget

/-- Taking a pair or making one is accounted for, since a new pair differs from
all others. -/
theorem of_takeOrMake {r : Except Error KeyPair}
    (h : Accounted mark start log d) (hvaried : start.source.Varied mark)
    (hrun : Runs (DeskM.takeOrMake purpose) d r d') :
    Accounted mark start
      (log ++ r.toOption.toList.map (.handed purpose)) d' := by
  rcases DeskM.takeOrMake_cases hrun with ⟨pair, hget, rfl, rfl⟩ | ⟨-, hmake⟩
  · exact h.of_taken hget
  · cases r with
    | error e =>
        simp only [Except.toOption, Option.toList_none, List.map_nil,
          List.append_nil]
        exact h.of_failed hmake
    | ok pair =>
        have hmade := DeskM.outcome_of_makePair hmake
        obtain ⟨-, rfl⟩ := DeskM.makePair_iff.mp hmake
        refine h.of_made hvaried rfl hmade KeyPool.known_of_handed
          fun p a hmem => ?_
        cases List.mem_singleton.mp hmem

/-- Filling the pool is accounted for in the same way. -/
theorem of_fill {r : Except Error Unit} (h : Accounted mark start log d)
    (hvaried : start.source.Varied mark)
    (hrun : Runs (DeskM.fill purpose) d r d') :
    Accounted mark start
      (log ++ if d.pool.isReady purpose then []
        else (d'.pool.get purpose).toList.map (.filled purpose)) d' := by
  rcases DeskM.fill_cases hrun with ⟨hready, -, rfl⟩ | ⟨hready, hcases⟩
  · rw [if_pos hready, List.append_nil]
    exact h
  · rw [if_neg (by simp [hready])]
    have hempty := KeyPool.isReady_eq_false_iff.mp hready
    rcases hcases with ⟨e, hmake, -⟩ | ⟨pair, d₁, hmake, -, rfl⟩
    · rw [DeskM.pool_of_makePair hmake, hempty, Option.toList_none,
        List.map_nil, List.append_nil]
      exact h.of_failed hmake
    · have hmade := DeskM.outcome_of_makePair hmake
      obtain ⟨-, rfl⟩ := DeskM.makePair_iff.mp hmake
      rw [KeyPool.get_set_self]
      refine h.of_made hvaried rfl hmade (KeyPool.known_of_filled hempty)
        fun p a hmem => ?_
      cases List.mem_singleton.mp hmem
      rfl

/-- Whatever an operation does with the pool, everything is accounted for
afterwards. -/
theorem of_uses {σ α : Type} {desk : σ → Desk} {op : ExceptT Error (StateM σ) α}
    {s s' : σ} {r : Except Error α} (hvaried : start.source.Varied mark)
    (huses : Uses desk op s more r s') (h : Accounted mark start log (desk s)) :
    Accounted mark start (log ++ more) (desk s') := by
  induction huses generalizing log with
  | apart hapart hrun =>
      rw [List.append_nil]
      exact h.of_apart hapart hrun
  | take hrun => exact h.of_take hrun
  | takeOrMake hrun => exact h.of_takeOrMake hvaried hrun
  | fill hrun => exact h.of_fill hvaried hrun
  | pure a s => rwa [List.append_nil]
  | throw e s => rwa [List.append_nil]
  | bind_ok _ _ hfirst hrest =>
      rw [← List.append_assoc]
      exact hrest (hfirst h)
  | bind_error _ hfirst => exact hfirst h
  | identifier i d => rwa [List.append_nil]
  | setIdentifier i j d => rwa [List.append_nil]
  | atDesk _ hop => exact hop h
  | onIdentifier _ hop => exact hop h
  | joined _ _ hop => exact hop h
  | @whole _ _ d d₁ _ _ _ _ hop =>
      exact (hop (h.other d.view.begin d.entropy)).other _ d₁.entropy

end Accounted

/-- The desk is reached from the first one by operations that use the pool as
the log says.  The records and the random bytes may change in between. -/
inductive History (start : Desk) : List KeyEvent → Desk → Prop where
  | opened : History start [] start
  /-- An operation, failed or not, alone or in a transaction of the caller. -/
  | operation {α : Type} {op : DeskM α} {r : Except Error α} {d d' : Desk}
      {log more : List KeyEvent} (h : History start log d)
      (huses : Uses id op d more r d')
      : History start (log ++ more) d'
  | aside {d : Desk} {log : List KeyEvent} (view : View) (entropy : Bytes)
      (h : History start log d)
      : History start log { d with view, entropy }

/-- Behind every history, everything is accounted for. -/
theorem accounted_of_history (hempty : start.pool = {})
    (hvaried : start.source.Varied mark) (h : History start log d) :
    Accounted mark start log d := by
  induction h with
  | opened =>
      have hnone : start.pool.known [] = [] := by rw [hempty]; rfl
      exact ⟨rfl, Nat.le_refl _, by simp [hnone], by simp [hnone], by simp⟩
  | operation _ huses ih => exact ih.of_uses hvaried huses
  | aside view entropy _ ih => exact ih.other view entropy

/-- Pairs are handed out at most once and for their own purpose, and none that
waits is lost. -/
structure SingleUse (mark : KeyPair → κ) (log : List KeyEvent)
    (pool : KeyPool) : Prop where
  /-- No two pairs that were handed out are the same. -/
  once : ((handedOut log).map (mark ·.2)).Nodup
  /-- A pair that was made to wait for a purpose is not handed out for another
  one. -/
  purpose : ∀ ⦃p q a b⦄, .filled p a ∈ log → .handed q b ∈ log →
    mark b = mark a → q = p
  /-- A pair that was made to wait does so until it is handed out. -/
  kept : ∀ ⦃p a⦄, .filled p a ∈ log → .handed p a ∈ log ∨ pool.get p = some a

/-- Where everything is accounted for, no pair is used twice. -/
theorem Accounted.singleUse (h : Accounted mark start log d) :
    SingleUse mark log d.pool where
  once := h.once.sublist ((List.sublist_append_left ..).map _)
  purpose p q a b hfilled hhanded hsame := by
    have hwaited := h.filled hfilled
    have hgiven : (q, b) ∈ d.pool.known log :=
      List.mem_append_left _ (mem_handedOut.mpr hhanded)
    have heq := List.inj_on_of_nodup_map h.once hgiven hwaited hsame
    exact congrArg Prod.fst heq
  kept p a hfilled :=
    (List.mem_append.mp (h.filled hfilled)).imp mem_handedOut.mp
      KeyPool.mem_waiting.mp

namespace KeyPool

open DeskM

/-- A pool that starts empty hands out every pair at most once and only for its
purpose, in operations that succeed and in operations that fail and are taken
back, if the source makes pairs with different marks. -/
theorem used_once (hempty : start.pool = {})
    (hvaried : start.source.Varied mark) :
    (∀ {α : Type} {op : DeskM α} {d d' : Desk} {r : Except Error α},
      Offered op →
        (Runs op d r d' ↔ ∃ log, Uses id op d log r d')) ∧
      (∀ {log : List KeyEvent} {d : Desk}, History start log d →
        SingleUse mark log d.pool) ∧
      (∀ {d d' : Desk} {r : Except Error Unit}, Runs pregenerate d r d' →
        d.StillWaits d' ∧
        ∀ u, r = .ok u → ∀ purpose, d'.pool.isReady purpose = true) ∧
      (∀ {purpose other : KeyPurpose}, other ≠ purpose →
        LeavesSlot other (take purpose) ∧
        LeavesSlot other (takeOrMake purpose)) ∧
      (∀ account, Traces (KeyEvent.HandedFor .space) id
        (Custody.spaceKey account) ∧
        LeavesSlot .password (Custody.spaceKey account)) ∧
      ∀ account password,
        Traces (KeyEvent.HandedFor .password) id
          (Custody.passwordKey account password) ∧
        LeavesSlot .space (Custody.passwordKey account password) := by
  refine ⟨Offered.runs_iff, fun h =>
    (accounted_of_history hempty hvaried h).singleUse,
      fun hrun => ⟨keepsWaiting_pregenerate hrun, ?_⟩,
      fun hne => ⟨leavesSlot_take hne, leavesSlot_takeOrMake hne⟩,
      fun account =>
        ⟨Custody.traces_spaceKey account, Custody.leavesSlot_spaceKey account⟩,
      fun account password => ⟨Custody.traces_passwordKey account password,
        Custody.leavesSlot_passwordKey account password⟩⟩
  rintro u rfl
  exact ready_of_pregenerate hrun

end KeyPool

/-- A pair with a number. -/
def KeyPair.numbered (n : Nat) : KeyPair :=
  ⟨"", String.ofList (List.replicate n 'k')⟩

/-- A desk with an endless supply of pairs, at a store that refuses the second
call. -/
def Desk.supplied (pending : Option Writes) (calls : Nat) (pool : KeyPool)
    (asked : Nat) : Desk where
  view :=
    { committed := .empty
      pending
      refusal := fun n => if n = 1 then some .unavailable else none
      calls }
  pool
  source := { outcome := fun n => .ok (.numbered n), asked }

/-- The supplied pairs vary in their public keys. -/
theorem KeySource.varied_supplied :
    (Desk.supplied none 0 {} 0).source.Varied KeyPair.publicPem := by
  intro m n p q _ hmn hp hq hsame
  cases hp
  cases hq
  have hlength := congrArg String.length hsame
  simp [KeyPair.numbered] at hlength
  exact absurd hlength hmn.ne

/-- The pool is filled; making the own key of an account takes a pair and fails,
since the key is not stored; then pairs are taken for both purposes. -/
def KeyEvent.ofRefusedAccount : List KeyEvent :=
  [.filled .space (.numbered 0), .filled .password (.numbered 1),
    .handed .space (.numbered 0), .handed .space (.numbered 2),
    .handed .password (.numbered 1)]

/-- A pair that was taken for an account that could not be stored is not handed
out again. -/
theorem KeyPool.used_once_of_refused :
    History (.supplied none 0 {} 0) KeyEvent.ofRefusedAccount
      (.supplied none 2 {} 3) ∧
      SingleUse KeyPair.publicPem KeyEvent.ofRefusedAccount {} := by
  have hfirst :
      Uses id (DeskM.fill .space) (.supplied none 0 {} 0)
        [.filled .space (.numbered 0)] (.ok ())
          (.supplied none 0 ⟨some (.numbered 0), none⟩ 1) := .fill rfl
  have hsecond :
      Uses id (DeskM.fill .password)
        (.supplied none 0 ⟨some (.numbered 0), none⟩ 1)
          [.filled .password (.numbered 1)] (.ok ())
      (.supplied none 0 ⟨some (.numbered 0), some (.numbered 1)⟩ 2) := .fill rfl
  have hfilled : Uses id DeskM.pregenerate _ _ _ _ := .bind_ok hfirst hsecond
  -- the transaction in which the account's own key is not stored
  have hread : Runs (DeskM.records (.spaceKey? "account"))
      (.supplied (some .empty) 0 ⟨some (.numbered 0), some (.numbered 1)⟩ 2)
        (.ok none)
      (.supplied (some .empty) 1 ⟨some (.numbered 0), some (.numbered 1)⟩ 2) :=
        rfl
  have htake : Uses id (DeskM.takeOrMake .space)
      (.supplied (some .empty) 1 ⟨some (.numbered 0), some (.numbered 1)⟩ 2)
      [.handed .space (.numbered 0)] (.ok (.numbered 0))
      (.supplied (some .empty) 1 ⟨none, some (.numbered 1)⟩ 2) :=
        .takeOrMake rfl
  have hput : Runs
      (DeskM.records (.putSpaceKey "account" (KeyPair.numbered 0).privatePem))
        (.supplied (some .empty) 1 ⟨none, some (.numbered 1)⟩ 2)
          (.error (.store .unavailable))
      (.supplied (some .empty) 2 ⟨none, some (.numbered 1)⟩ 2) := rfl
  have hkey : Uses id (Custody.spaceKey "account") _ _ _ _ :=
    .bind_ok (.apart (apart_records _) hread)
      (.bind_ok htake (.bind_error (.apart (apart_records _) hput)))
  have hrefused := Uses.whole
    (d := .supplied none 0 ⟨some (.numbered 0), some (.numbered 1)⟩ 2) rfl hkey
  have hnew : Uses id (DeskM.takeOrMake .space)
      (.supplied none 2 ⟨none, some (.numbered 1)⟩ 2)
        [.handed .space (.numbered 2)] (.ok (.numbered 2))
      (.supplied none 2 ⟨none, some (.numbered 1)⟩ 3) := .takeOrMake rfl
  have hlast :
      Uses id (DeskM.take .password)
        (.supplied none 2 ⟨none, some (.numbered 1)⟩ 3)
          [.handed .password (.numbered 1)] (.ok (some (.numbered 1)))
            (.supplied none 2 {} 3) :=
    .take rfl
  have hhistory :=
    ((((History.opened.operation hfilled).operation hrefused).operation
      hnew).operation hlast)
  exact ⟨hhistory,
    (KeyPool.used_once rfl KeySource.varied_supplied).2.1 hhistory⟩

end DidVault
