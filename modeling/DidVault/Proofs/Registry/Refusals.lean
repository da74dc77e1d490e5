import DidVault.Proofs.Registry.Steps

/-!
# Stores that refuse calls

A store may refuse any call, and the operation that made it fails with the
reason of the store.  Otherwise nothing was refused, and then everything happens
as it does where the store refuses nothing at all (`Spares`).  So what else may
fail is seen where the store refuses nothing.
-/

namespace DidVault

/-- The view of a store that refuses nothing. -/
def View.free (v : View) : View := { v with refusal := fun _ => none }

/-- The desk at a store that refuses nothing. -/
def Desk.free (d : Desk) : Desk := { d with view := d.view.free }

/-- The second view comes from the first by calls. -/
structure View.Leads (v v' : View) : Prop where
  refusal : v'.refusal = v.refusal
  calls : v.calls ≤ v'.calls

/-- One of the calls that lead from the first view to the second was refused. -/
def View.Refused (v v' : View) (f : StoreError) : Prop :=
  ∃ n, v.calls ≤ n ∧ n < v'.calls ∧ v.refusal n = some f

namespace View

variable {v v₁ v' : View} {f : StoreError}

/-- Without a call the view stays the same. -/
theorem Leads.refl (v : View) : v.Leads v := ⟨rfl, Nat.le_refl _⟩

/-- Calls after calls are calls. -/
theorem Leads.trans (h₁ : v.Leads v₁) (h₂ : v₁.Leads v') : v.Leads v' :=
  ⟨h₂.refusal.trans h₁.refusal, Nat.le_trans h₁.calls h₂.calls⟩

/-- What was refused later was refused. -/
theorem Refused.of_later (hleads : v.Leads v₁) (h : v₁.Refused v' f) :
    v.Refused v' f := by
  obtain ⟨n, hfirst, hlast, hrefused⟩ := h
  exact ⟨n, Nat.le_trans hleads.calls hfirst, hlast, hleads.refusal ▸ hrefused⟩

/-- A write is a call. -/
theorem leads_write (v : View) (key : Bytes) (value : Option Bytes) :
    v.Leads (v.write key value) := by
  unfold write
  cases v.pending <;> exact ⟨rfl, Nat.le_refl _⟩

/-- A write does the same at a store that refuses nothing. -/
theorem free_write (v : View) (key : Bytes) (value : Option Bytes) :
    (v.write key value).free = v.free.write key value := by
  obtain ⟨committed, pending, refusal, calls⟩ := v
  cases pending <;> rfl

end View

variable {ε σ α β : Type} {view : σ → View} {free : σ → σ}
  {failed : StoreError → ε}

/-- Every run of the operation fails with a refusal, or else it is the same
where nothing is refused.  The records are the part `view` of the state. -/
def Spares (view : σ → View) (free : σ → σ) (failed : StoreError → ε)
    (op : ExceptT ε (StateM σ) α) : Prop :=
  ∀ ⦃s r s'⦄, Runs op s r s' → (view s).Leads (view s') ∧
    ((∃ f, (view s).Refused (view s') f ∧ r = .error (failed f)) ∨
      Runs op (free s) r (free s'))

/-- What leaves the records alone and does not look at the refusals is not
refused anything. -/
theorem Spares.of_commutes {op : ExceptT ε (StateM σ) α}
    (hview : Keeps (fun s s' => view s' = view s) op) (hop : Commutes free op) :
    Spares view free failed op := by
  intro s r s' hrun
  rw [hview hrun]
  exact ⟨.refl _, .inr (hop hrun)⟩

/-- Doing, but for refusals, what is done where nothing is refused is closed
under sequencing. -/
theorem closed_spares (view : σ → View) (free : σ → σ)
    (failed : StoreError → ε) :
    Closed fun {α : Type} (op : ExceptT ε (StateM σ) α) =>
      Spares view free failed op where
  pure a := by
    refine .of_commutes (fun s r s' h => ?_) ((Closed.commutes free).pure a)
    rw [(Runs.pure_iff.mp h).2]
  throw e := by
    refine .of_commutes (fun s r s' h => ?_) ((Closed.commutes free).throw e)
    rw [(Runs.throw_iff.mp h).2]
  bind {α β x f} hx hf := by
    rintro s (e | b) s' h
    · rcases Runs.bind_error.mp h with h | ⟨a, s₁, h₁, h₂⟩
      · obtain ⟨hleads, hcases⟩ := hx h
        refine ⟨hleads, hcases.imp ?_ fun h => Runs.bind_error.mpr (.inl h)⟩
        rintro ⟨fault, hrefused, hr⟩
        exact ⟨fault, hrefused, congrArg _ (Except.error.inj hr)⟩
      · obtain ⟨hleads₁, hcases₁⟩ := hx h₁
        obtain ⟨hleads₂, hcases₂⟩ := hf a h₂
        have hfirst := hcases₁.resolve_left fun ⟨_, _, hr⟩ => nomatch hr
        refine ⟨hleads₁.trans hleads₂, hcases₂.imp ?_ fun h => ?_⟩
        · exact fun ⟨fault, hrefused, hr⟩ =>
            ⟨fault, hrefused.of_later hleads₁, hr⟩
        · exact Runs.bind_error.mpr (.inr ⟨a, free s₁, hfirst, h⟩)
    · obtain ⟨a, s₁, h₁, h₂⟩ := Runs.bind_ok.mp h
      obtain ⟨hleads₁, hcases₁⟩ := hx h₁
      obtain ⟨hleads₂, hcases₂⟩ := hf a h₂
      have hfirst := hcases₁.resolve_left fun ⟨_, _, hr⟩ => nomatch hr
      have hsecond := hcases₂.resolve_left fun ⟨_, _, hr⟩ => nomatch hr
      exact ⟨hleads₁.trans hleads₂,
        .inr (Runs.bind_ok.mpr ⟨a, free s₁, hfirst, hsecond⟩)⟩

namespace RecordsM

/-- A call is refused, or counted as it is where nothing is refused. -/
theorem spares_call : Spares id View.free id call := by
  intro v r v' hrun
  obtain ⟨rfl, rfl⟩ := call_iff.mp hrun
  refine ⟨⟨rfl, Nat.le_succ _⟩, ?_⟩
  cases hrefusal : v.refusal v.calls with
  | some f =>
      exact .inl ⟨f,
        ⟨v.calls, Nat.le_refl _, Nat.lt_succ_self _, hrefusal⟩, rfl⟩
  | none => exact .inr (call_iff.mpr ⟨rfl, rfl⟩)

/-- A write is refused, or else it does the same where nothing is refused. -/
theorem spares_write (key : String) (value : Option Bytes) :
    Spares id View.free id
      (do call; modify (·.write (Utf8.encode key) value)) := by
  refine (closed_spares ..).bind spares_call fun _ v r v' hrun => ?_
  obtain ⟨rfl, rfl⟩ := Runs.modify_iff.mp hrun
  refine ⟨v.leads_write .., .inr (Runs.modify_iff.mpr ⟨rfl, ?_⟩)⟩
  exact v.free_write ..

end RecordsM

/-- Whatever is done, either the store refused a call and it failed with that,
or it is done as where the store refuses nothing. -/
theorem spares :
    Pervades (Spares id View.free id) (Spares Desk.view Desk.free .store)
      (Spares IssueM.view (Prod.map id Desk.free) .store) where
  onRecords := closed_spares ..
  read? key := by
    refine (closed_spares ..).bind RecordsM.spares_call fun _ v r v' hrun => ?_
    rw [Runs.get_bind] at hrun ⊢
    obtain ⟨rfl, rfl⟩ := Runs.pure_iff.mp hrun
    exact ⟨.refl _, .inr (Runs.pure_iff.mpr ⟨rfl, rfl⟩)⟩
  put key value := RecordsM.spares_write key (some value)
  delete key := RecordsM.spares_write key none
  onDesk := closed_spares ..
  records hop d r d' hrun := by
    obtain ⟨r₀, v', h, rfl, rfl⟩ := DeskM.records_iff.mp hrun
    obtain ⟨hleads, hcases⟩ := hop h
    refine ⟨hleads, hcases.imp ?_ fun h => ?_⟩
    · rintro ⟨f, hrefused, rfl⟩
      exact ⟨f, hrefused, rfl⟩
    · exact DeskM.records_iff.mpr ⟨r₀, v'.free, h, rfl, rfl⟩
  draw count shortage :=
    .of_commutes (DeskM.leavesView_draw count shortage)
      (DeskM.commutes_draw (f := Desk.free) (fun _ => rfl)
        (fun _ _ => rfl) count shortage)
  takeOrMake := DeskM.takeOrMake_of_closed (closed_spares ..)
    (fun purpose =>
      .of_commutes (DeskM.leavesView_take purpose)
        (DeskM.commutes_take _ purpose))
    (.of_commutes DeskM.leavesView_makePair (DeskM.commutes_makePair _))
  onIdentifiers := closed_spares ..
  identifier := by
    refine .of_commutes (fun s r s' hrun => ?_) (IssueM.commutes_identifier _)
    rw [(IssueM.identifier_iff.mp hrun).2]
  setIdentifier i := by
    refine .of_commutes (fun s r s' hrun => ?_)
      (IssueM.commutes_setIdentifier _ i)
    rw [(Runs.modify_iff.mp hrun).2]
    rfl
  atDesk hop := by
    rintro ⟨i, d⟩ r s' hrun
    obtain ⟨d', h, rfl⟩ := IssueM.atDesk_iff.mp hrun
    obtain ⟨hleads, hcases⟩ := hop h
    exact ⟨hleads, hcases.imp_right fun h =>
      IssueM.atDesk_iff.mpr ⟨d'.free, h, rfl⟩⟩
  onIdentifier i hop d r d' hrun := by
    obtain ⟨r₀, i', h, rfl⟩ := IssueM.onIdentifier_iff.mp hrun
    obtain ⟨hleads, hcases⟩ := hop h
    refine ⟨hleads, hcases.imp ?_ fun h => ?_⟩
    · rintro ⟨f, hrefused, rfl⟩
      exact ⟨f, hrefused, rfl⟩
    · exact IssueM.onIdentifier_iff.mpr ⟨r₀, i', h, rfl⟩

end DidVault
