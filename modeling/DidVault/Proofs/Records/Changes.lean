import DidVault.Proofs.Records.Slots
import DidVault.Proofs.Runs

/-!
# Changes of the records

What the records look like is what a lookup finds under each key, inside or
outside a transaction.  A run on the records is described by its changes: the
list of slots that it wrote and removed, in order (`View.Changed`).  `Makes`
says this of an operation, and also that a run of it that fails leaves a
beginning of these changes; it is shown step by step (`Makes.bind`).  A
transaction that is committed stores exactly what was visible in it
(`View.lookup_commit`), and one that is rolled back leaves the committed records
as they were.
-/

namespace DidVault

/-- What a lookup finds under each key. -/
abbrev Sight := Bytes → Option Bytes

/-- What is put into a slot; nothing stands for a removal. -/
abbrev Change := Slot × Option Bytes

namespace Sight

variable {look : Sight} {changes : List Change}

/-- What a lookup finds after some changes. -/
def after (look : Sight) : List Change → Sight
  | [] => look
  | (s, value) :: rest =>
      after (fun key => if s.key = key then value else look key) rest

/-- Nothing has changed. -/
@[simp] theorem after_nil : look.after [] = look := rfl

/-- Changes come one after the other. -/
theorem after_append (look : Sight) (first second : List Change) :
    look.after (first ++ second) = (look.after first).after second := by
  induction first generalizing look with
  | nil => rfl
  | cons c rest ih => exact ih _

/-- A key of no changed slot keeps its value. -/
theorem after_of_not_mem {key : Bytes} (hkey : ∀ c ∈ changes, c.1.key ≠ key) :
    look.after changes key = look key := by
  induction changes generalizing look with
  | nil => rfl
  | cons c rest ih =>
      have hhead : c.1.key ≠ key := hkey c (List.mem_cons_self ..)
      rw [after, ih fun d hd => hkey d (List.mem_cons_of_mem _ hd),
        if_neg hhead]

/-- The last change of a slot is the one that counts. -/
theorem after_concat (look : Sight) (changes : List Change) (s t : Slot)
    (value : Option Bytes) :
    look.after (changes ++ [(s, value)]) t.key =
      if s = t then value else look.after changes t.key := by
  rw [after_append]
  simp [after]

/-- What a slot holds, if it is text. -/
def text? (look : Sight) (s : Slot) : Option String :=
  (look s.key).bind fun bytes => (Utf8.decode bytes).toOption

end Sight

namespace Records

/-- A write is seen under its own key only. -/
@[simp] theorem get?_write (records : Records) (key k : Bytes)
    (value : Option Bytes) :
    (write records key value).get? k = if key =
      k then value else records.get? k := by
  cases value with
  | none => exact Table.get?_erase records key k
  | some value => exact Table.get?_insert records key k value

/-- A key before all keys of a table is not in it. -/
theorem find?_eq_none_of_before {β : Type} {key : Bytes}
    {entries : List (Bytes × β)}
    (hbefore : ∀ e ∈ entries, Bytes.before key e.1 = true) :
    Table.find? key entries = none := by
  induction entries with
  | nil => rfl
  | cons e rest ih =>
      have hne : e.1 ≠ key := by
        intro h
        have hself := hbefore e (List.mem_cons_self ..)
        rw [h, Bytes.before_irrefl] at hself
        cases hself
      rw [Table.find?, if_neg hne]
      exact ih fun d hd => hbefore d (List.mem_cons_of_mem _ hd)

/-- Carrying out the writes of a transaction shows them over what was
committed. -/
theorem get?_apply (records : Records) (writes : Writes) (key : Bytes) :
    (records.apply writes).get? key =
      ((writes.get? key).getD (records.get? key)) := by
  obtain ⟨entries, hsorted⟩ := writes
  unfold apply Table.get?
  simp only
  induction entries generalizing records with
  | nil => rfl
  | cons e rest ih =>
      obtain ⟨hfirst, hrest⟩ := List.pairwise_cons.mp hsorted
      rw [List.foldl_cons, ih (write records e.1 e.2) hrest]
      by_cases hkey : e.1 = key
      · have hnone : Table.find? key rest = none :=
          find?_eq_none_of_before fun d hd => hkey ▸ hfirst d hd
        have hwritten := get?_write records e.1 key e.2
        rw [Table.get?, if_pos hkey] at hwritten
        rw [hnone, Table.find?, if_pos hkey, Option.getD_none,
          Option.getD_some, hwritten]
      · have hkept := get?_write records e.1 key e.2
        rw [Table.get?, if_neg hkey] at hkept
        rw [Table.find?, if_neg hkey, hkept, Table.get?]

end Records

namespace View

/-- Outside a transaction the committed records are seen. -/
theorem lookup_of_closed {v : View} (hclosed : v.pending = none) :
    v.lookup = v.committed.get? := by
  funext key
  rw [lookup, hclosed]
  rfl

/-- At its beginning a transaction sees the committed records. -/
@[simp] theorem lookup_begin (v : View) :
    v.begin.lookup = v.committed.get? := by
  funext key
  rfl

/-- Behind a commit no transaction is open. -/
@[simp] theorem pending_commit (v : View) : v.commit.pending = none := rfl

/-- Behind a rollback no transaction is open. -/
@[simp] theorem pending_rollback (v : View) : v.rollback.pending = none := rfl

/-- A rollback keeps the committed records. -/
@[simp] theorem committed_rollback (v : View) :
    v.rollback.committed = v.committed := rfl

/-- A commit stores what was visible. -/
theorem get?_commit (v : View) : v.commit.committed.get? = v.lookup := by
  funext key
  cases hpending : v.pending with
  | none => simp [commit, lookup, hpending]
  | some writes =>
      simp only [commit, hpending, Option.map_some, Option.getD_some, lookup,
        Option.bind_some]
      rw [Records.get?_apply]
      cases writes.get? key <;> rfl

/-- A commit does not change what is seen. -/
@[simp] theorem lookup_commit (v : View) : v.commit.lookup = v.lookup := by
  rw [lookup_of_closed (pending_commit v), get?_commit]

/-- A write is seen at once, inside a transaction and outside. -/
@[simp] theorem lookup_write (v : View) (key k : Bytes) (value : Option Bytes) :
    (v.write key value).lookup k = if key = k then value else v.lookup k := by
  cases hpending : v.pending with
  | none => simp [write, lookup, hpending]
  | some writes =>
      simp only [write, hpending, lookup, Option.bind_some, Table.get?_insert]
      by_cases hkey : key = k <;> simp [hkey]

/-- `v'` comes from `v` by changes of some slots, within the transaction if one
is open.  The store refuses what it refused. -/
structure Changed (v : View) (changes : List Change) (v' : View) : Prop where
  isOpen : v'.pending.isSome = v.pending.isSome
  committed : v.pending.isSome = true → v'.committed = v.committed
  lookup : v'.lookup = Sight.after v.lookup changes
  refusal : v'.refusal = v.refusal

namespace Changed

variable {v v₁ v₂ : View} {first second : List Change}

/-- A view comes from itself by no change. -/
theorem refl (v : View) : v.Changed [] v := ⟨rfl, fun _ => rfl, rfl, rfl⟩

/-- Changes that come one after the other are one list of changes. -/
theorem trans (h₁ : v.Changed first v₁) (h₂ : v₁.Changed second v₂) :
    v.Changed (first ++ second) v₂ where
  isOpen := h₂.isOpen.trans h₁.isOpen
  committed hopen :=
    (h₂.committed (h₁.isOpen.trans hopen)).trans (h₁.committed hopen)
  lookup := by rw [h₂.lookup, h₁.lookup, Sight.after_append]
  refusal := h₂.refusal.trans h₁.refusal

/-- What changes nothing may come behind. -/
theorem trans_nil (h₁ : v.Changed first v₁) (h₂ : v₁.Changed [] v₂) :
    v.Changed first v₂ := by
  have h := h₁.trans h₂
  rwa [List.append_nil] at h

/-- A write is one change. -/
theorem write (v : View) (s : Slot) (value : Option Bytes) :
    v.Changed [(s, value)] (v.write s.key value) where
  isOpen := by cases h : v.pending <;> simp [View.write, h]
  committed hopen := by
    obtain ⟨writes, hwrites⟩ := Option.isSome_iff_exists.mp hopen
    simp [View.write, hwrites]
  lookup := by
    funext key
    exact lookup_write v s.key key value
  refusal := by cases h : v.pending <;> simp [View.write, h]

/-- The count of calls is no part of what the records look like. -/
theorem counted (v : View) (n : Nat) : v.Changed [] { v with calls := n } :=
  ⟨rfl, fun _ => rfl, rfl, rfl⟩

end Changed

/-- `v'` comes from `v` by a beginning of some changes. -/
def Partly (v : View) (changes : List Change) (v' : View) : Prop :=
  ∃ done rest, changes = done ++ rest ∧ v.Changed done v'

namespace Partly

variable {v v₁ v₂ : View} {first second : List Change}

/-- Nothing has been done yet. -/
theorem none (h : v.Changed [] v₁) (changes : List Change) :
    v.Partly changes v₁ :=
  ⟨[], changes, rfl, h⟩

/-- Where nothing is to be done, nothing has been done. -/
theorem nothing (h : v.Partly [] v₁) : v.Changed [] v₁ := by
  obtain ⟨done, rest, hsplit, hchanged⟩ := h
  obtain ⟨rfl, -⟩ := List.append_eq_nil_iff.mp hsplit.symm
  exact hchanged

/-- What comes behind the place where a run stopped does not matter. -/
theorem append (h : v.Partly first v₁) (second : List Change) :
    v.Partly (first ++ second) v₁ := by
  obtain ⟨done, rest, rfl, hchanged⟩ := h
  exact ⟨done, rest ++ second, List.append_assoc .., hchanged⟩

/-- What was done before is done. -/
theorem after (h₁ : v.Changed first v₁) (h₂ : v₁.Partly second v₂) :
    v.Partly (first ++ second) v₂ := by
  obtain ⟨done, rest, rfl, hchanged⟩ := h₂
  exact ⟨first ++ done, rest, (List.append_assoc ..).symm, h₁.trans hchanged⟩

end Partly

end View

variable {ε σ α β : Type}

/-- Started in `s`, the operation makes all of the changes if it succeeds, and a
beginning of them if it fails.  The records are the part `view` of the state. -/
structure Makes (view : σ → View) (op : ExceptT ε (StateM σ) α) (s : σ)
    (changes : List Change) : Prop where
  ok : ∀ {a s'}, Runs op s (.ok a) s' → (view s).Changed changes (view s')
  error : ∀ {e s'}, Runs op s (.error e) s' → (view s).Partly changes (view s')

namespace Makes

variable {view : σ → View} {s : σ} {first second : List Change}

/-- An answer makes no change. -/
theorem pure (a : α) :
    Makes view (Pure.pure a : ExceptT ε (StateM σ) α) s [] where
  ok hrun := by
    obtain ⟨-, rfl⟩ := Runs.pure_iff.mp hrun
    exact .refl _
  error hrun := by
    obtain ⟨h, -⟩ := Runs.pure_iff.mp hrun
    cases h

/-- A failure has made nothing yet of what was to come. -/
theorem throw (e : ε) (changes : List Change) :
    Makes view (MonadExcept.throw e : ExceptT ε (StateM σ) α) s changes where
  ok hrun := by
    obtain ⟨h, -⟩ := Runs.throw_iff.mp hrun
    cases h
  error hrun := by
    obtain ⟨-, rfl⟩ := Runs.throw_iff.mp hrun
    exact .none (.refl _) changes

/-- Looking at the state makes no change. -/
theorem get : Makes view (MonadState.get : ExceptT ε (StateM σ) σ) s [] where
  ok hrun := by
    obtain ⟨-, rfl⟩ := Runs.get_iff.mp hrun
    exact .refl _
  error hrun := by
    obtain ⟨h, -⟩ := Runs.get_iff.mp hrun
    cases h

/-- A step on the state makes what it changes of the view. -/
theorem modify {f : σ → σ} {changes : List Change}
    (hf : (view s).Changed changes (view (f s))) :
    Makes view (modify f : ExceptT ε (StateM σ) PUnit) s changes where
  ok hrun := by
    obtain ⟨-, rfl⟩ := Runs.modify_iff.mp hrun
    exact hf
  error hrun := by
    obtain ⟨h, -⟩ := Runs.modify_iff.mp hrun
    cases h

/-- A block of steps makes the changes of its first step, and then those of the
rest. -/
theorem bind {x : ExceptT ε (StateM σ) α} {f : α → ExceptT ε (StateM σ) β}
    (hx : Makes view x s first)
    (hf : ∀ a s₁, Runs x s (.ok a) s₁ → Makes view (f a) s₁ second) :
    Makes view (x >>= f) s (first ++ second) where
  ok hrun := by
    obtain ⟨a, s₁, h₁, h₂⟩ := Runs.bind_ok.mp hrun
    exact (hx.ok h₁).trans ((hf a s₁ h₁).ok h₂)
  error hrun := by
    rcases Runs.bind_error.mp hrun with h | ⟨a, s₁, h₁, h₂⟩
    · exact (hx.error h).append second
    · exact .after (hx.ok h₁) ((hf a s₁ h₁).error h₂)

/-- Steps behind the last change do not matter. -/
theorem bind_nil {x : ExceptT ε (StateM σ) α} {f : α → ExceptT ε (StateM σ) β}
    (hx : Makes view x s first)
    (hf : ∀ a s₁, Runs x s (.ok a) s₁ → Makes view (f a) s₁ []) :
    Makes view (x >>= f) s first := by
  have hall := hx.bind hf
  rwa [List.append_nil] at hall

/-- Changes of a step that depend on what was found before it are known before,
if at all: the step before ends in one way only. -/
theorem bind_exists {ι : Type} [Nonempty ι] {plan : ι → List Change}
    {x : ExceptT ε (StateM σ) α} {f : α → ExceptT ε (StateM σ) β}
    (hx : Makes view x s first)
    (hf : ∀ a s₁, Runs x s (.ok a) s₁ → ∃ w, Makes view (f a) s₁ (plan w)) :
    ∃ w, Makes view (x >>= f) s (first ++ plan w) := by
  obtain ⟨r, s₁, hrun⟩ := Runs.ends x s
  cases r with
  | ok a =>
      obtain ⟨w, hw⟩ := hf a s₁ hrun
      refine ⟨w, hx.bind fun b s₂ hb => ?_⟩
      obtain ⟨h, rfl⟩ := Runs.unique hb hrun
      cases h
      exact hw
  | error e =>
      obtain ⟨w⟩ := ‹Nonempty ι›
      refine ⟨w, hx.bind fun b s₂ hb => ?_⟩
      cases (Runs.unique hb hrun).1

/-- Changes that depend on the outcome are known before, since there is one
outcome only. -/
theorem exists_of_ok [Nonempty α] {op : ExceptT ε (StateM σ) α}
    {plan : α → List Change}
    (hok : ∀ a s', Runs op s (.ok a) s' → (view s).Changed (plan a) (view s'))
    (herror : ∀ e s', Runs op s (.error e) s' → (view s).Changed [] (view s')) :
    ∃ a, Makes view op s (plan a) := by
  obtain ⟨r, s₁, hrun⟩ := Runs.ends op s
  cases r with
  | ok a =>
      refine ⟨a, fun hb => ?_, fun hb => .none (herror _ _ hb) _⟩
      obtain ⟨h, rfl⟩ := Runs.unique hb hrun
      cases h
      exact hok _ _ hrun
  | error e =>
      obtain ⟨a⟩ := ‹Nonempty α›
      refine ⟨a, fun hb => ?_, fun hb => .none (herror _ _ hb) _⟩
      cases (Runs.unique hb hrun).1

end Makes

/-- Started in `s`, the operation makes all of the changes if it succeeds, and
none of them if it fails. -/
structure MakesAtOnce (view : σ → View) (op : ExceptT ε (StateM σ) α) (s : σ)
    (changes : List Change) : Prop where
  ok : ∀ {a s'}, Runs op s (.ok a) s' → (view s).Changed changes (view s')
  error : ∀ {e s'}, Runs op s (.error e) s' → (view s).Changed [] (view s')

namespace MakesAtOnce

variable {view : σ → View} {s s' : σ} {first changes : List Change}

/-- Nothing is the only beginning of the changes that such an operation
leaves. -/
theorem makes {op : ExceptT ε (StateM σ) α}
    (hop : MakesAtOnce view op s changes) :
    Makes view op s changes where
  ok hrun := hop.ok hrun
  error hrun := .none (hop.error hrun) changes

/-- Steps that change nothing may come first. -/
theorem bind {x : ExceptT ε (StateM σ) α} {f : α → ExceptT ε (StateM σ) β}
    (hx : Makes view x s [])
    (hf : ∀ a s₁, Runs x s (.ok a) s₁ → MakesAtOnce view (f a) s₁ changes) :
    MakesAtOnce view (x >>= f) s changes where
  ok hrun := by
    obtain ⟨a, s₁, h₁, h₂⟩ := Runs.bind_ok.mp hrun
    exact (hx.ok h₁).trans ((hf a s₁ h₁).ok h₂)
  error hrun := by
    rcases Runs.bind_error.mp hrun with h | ⟨a, s₁, h₁, h₂⟩
    · exact (hx.error h).nothing
    · exact (hx.ok h₁).trans ((hf a s₁ h₁).error h₂)

/-- A block that begins with such a step fails there, with nothing changed, or
behind it, with the changes of that step made. -/
theorem cases_of_error {x : ExceptT ε (StateM σ) α}
    {f : α → ExceptT ε (StateM σ) β} {e : ε} (hx : MakesAtOnce view x s first)
    (hrun : Runs (x >>= f) s (.error e) s') :
    (Fails x s ∧ (view s).Changed [] (view s')) ∨
      ∃ a s₁, Runs x s (.ok a) s₁ ∧ (view s).Changed first (view s₁) ∧
        Runs (f a) s₁ (.error e) s' := by
  rcases Runs.bind_error.mp hrun with h | ⟨a, s₁, h₁, h₂⟩
  · exact .inl ⟨⟨e, s', h⟩, hx.error h⟩
  · exact .inr ⟨a, s₁, h₁, hx.ok h₁, h₂⟩

end MakesAtOnce

end DidVault
