import SmbDiscover.Lookups

/-!
# Interfaces without a broadcast address (`_list_IP_in_workgroup`, util_nmblookup.c:89-108)

`iface_n_bcast_v4` may return NULL. The loop copies `*broadcast` into `bcast_ss` and only
then tests `broadcast`, so a NULL it gets to is dereferenced; one behind the interface
that ends the loop is not looked at.
-/

namespace SmbDiscover
open CText CJson ListText

/-- Every NULL stands behind an interface that answers with a list. -/
def NullsBehindList (k : ℕ) (name : CStr) (ifaces : List (Option Iface)) : Prop :=
  ∀ before after, ifaces = before ++ none :: after →
    ∃ iface, some iface ∈ before ∧ (iface.nameQuery k name).ipList.isSome = true

theorem not_nullsBehindList_none (k : ℕ) (name : CStr) (rest : List (Option Iface)) :
    ¬ NullsBehindList k name (none :: rest) := by
  intro hbehind
  obtain ⟨iface, hmem, -⟩ := hbehind [] rest rfl
  cases hmem

theorem nullsBehindList_cons (k : ℕ) (name : CStr) (iface : Iface) (rest : List (Option Iface)) :
    NullsBehindList k name (some iface :: rest) ↔
      (iface.nameQuery k name).ipList.isSome = true ∨ NullsBehindList k name rest := by
  refine ⟨?_, ?_⟩
  · intro hbehind
    by_cases hlist : (iface.nameQuery k name).ipList.isSome = true
    · exact Or.inl hlist
    · refine Or.inr fun before after hrest => ?_
      obtain ⟨found, hmem, hanswer⟩ := hbehind (some iface :: before) after (by rw [hrest]; rfl)
      rcases List.mem_cons.mp hmem with hhead | htail
      · cases hhead
        exact absurd hanswer hlist
      · exact ⟨found, htail, hanswer⟩
  · intro h before after hsplit
    cases before with
    | nil => cases hsplit
    | cons head before =>
      obtain ⟨rfl, hrest⟩ := List.cons.inj hsplit
      rcases h with hlist | hbehind
      · exact ⟨iface, List.mem_cons_self .., hlist⟩
      · obtain ⟨found, hmem, hanswer⟩ := hbehind before after hrest
        exact ⟨found, List.mem_cons_of_mem _ hmem, hanswer⟩

/-- A scan that meets no NULL is the scan of the interfaces that have an address. -/
theorem scanIfaces_reduceOption (k : ℕ) (name : CStr) (ifaces : List (Option Iface)) (st : Scan)
    (hnone : st.ipList = none) (hbehind : NullsBehindList k name ifaces) :
    scanIfaces k name ifaces st = scanIfaces k name (ifaces.reduceOption.map some) st := by
  induction ifaces generalizing st with
  | nil => rfl
  | cons broadcast rest ih =>
    cases broadcast with
    | none => exact absurd hbehind (not_nullsBehindList_none k name rest)
    | some iface =>
      rw [List.reduceOption_cons_of_some, List.map_cons, scanIfaces_cons k name iface rest st hnone,
        scanIfaces_cons k name iface _ st hnone]
      cases hlist : (iface.nameQuery k name).ipList with
      | some addresses =>
        rw [scanIfaces_done k name rest _ rfl, scanIfaces_done k name _ _ rfl]
      | none =>
        have hrest := (nullsBehindList_cons k name iface rest).mp hbehind
        rw [hlist] at hrest
        exact ih _ rfl (hrest.resolve_left (by decide))

theorem scanIfaces_dereferences (k : ℕ) (name : CStr) (ifaces : List (Option Iface)) (st : Scan)
    (hnone : st.ipList = none) (hexposed : ¬ NullsBehindList k name ifaces) :
    scanIfaces k name ifaces st = none := by
  induction ifaces generalizing st with
  | nil =>
    refine absurd (fun before after hsplit => ?_) hexposed
    cases before <;> cases hsplit
  | cons broadcast rest ih =>
    cases broadcast with
    | none => simp [scanIfaces, hnone]
    | some iface =>
      rw [nullsBehindList_cons, not_or] at hexposed
      obtain ⟨hsilent, hrest⟩ := hexposed
      rw [scanIfaces_cons k name iface rest st hnone]
      exact ih _ (Option.not_isSome_iff_eq_none.mp hsilent) hrest

/-- The lookup ends without a NULL dereference, queries the interfaces that have an
address up to the first list, and answers as if there were no others. -/
def NullsSkipped (env : NmblookupEnv) (k : ℕ) (name : CStr) (jsonArray : List CJson) : Prop :=
  ∃ result, listIPInWorkgroup env k name jsonArray = some result ∧
    result.2 = queriesOf k name env.ifaces.reduceOption ∧
    listIPInWorkgroup { env with ifaces := env.ifaces.reduceOption.map some } k name jsonArray =
      some result

/-- Interfaces without an address are skipped exactly when the loop does not get to one. -/
theorem nullsSkipped_iff (env : NmblookupEnv) (k : ℕ) (name : CStr) (jsonArray : List CJson)
    (contract : ∀ iface, some iface ∈ env.ifaces → (iface.nameQuery k name).Documented) :
    NullsSkipped env k name jsonArray ↔ NullsBehindList k name env.ifaces := by
  refine ⟨?_, ?_⟩
  · intro hskipped
    by_contra hexposed
    obtain ⟨result, hlist, -⟩ := hskipped
    rw [listIPInWorkgroup, scanIfaces_dereferences k name _ _ rfl hexposed] at hlist
    cases hlist
  · intro hbehind
    obtain ⟨st, hscan, hdoc, -, hqueries⟩ := scanIfaces_spec k name env.ifaces.reduceOption
      ⟨false, none, 0, []⟩ (fun iface hi => contract iface (List.reduceOption_mem_iff.mp hi)) rfl
      (Or.inr ⟨rfl, rfl⟩)
    have hall := (scanIfaces_reduceOption k name env.ifaces ⟨false, none, 0, []⟩ rfl hbehind).trans
      hscan
    exact ⟨_, listIPInWorkgroup_of_scan env k name jsonArray st hall hdoc, hqueries,
      listIPInWorkgroup_of_scan { env with ifaces := env.ifaces.reduceOption.map some } k name
        jsonArray st hscan hdoc⟩

def loopbackFirst : NmblookupEnv := { twoIfaces with ifaces := [none, some homeIface] }

theorem loopback_dereferenced :
    (∀ k name iface, some iface ∈ loopbackFirst.ifaces →
      (iface.nameQuery k name).Documented) ∧
    listIPInWorkgroup loopbackFirst 0 (.lit "HOME") [] = none ∧
    ¬ NullsSkipped loopbackFirst 0 (.lit "HOME") [] := by
  refine ⟨?_, rfl, ?_⟩
  · intro k name iface hmem
    have hhome : iface = homeIface := by simpa [loopbackFirst] using hmem
    rw [hhome]
    exact homeIface_documented k name
  · intro hskipped
    obtain ⟨result, hlist, -⟩ := hskipped
    cases hlist

theorem loopback_behind_list :
    NullsSkipped { twoIfaces with ifaces := [some homeIface, none] } 0 (.lit "HOME") [] := by
  refine (nullsSkipped_iff { twoIfaces with ifaces := [some homeIface, none] } 0 (.lit "HOME") []
    ?_).mpr ((nullsBehindList_cons 0 _ homeIface [none]).mpr (Or.inl rfl))
  intro iface hmem
  have hhome : iface = homeIface := by simpa using hmem
  rw [hhome]
  exact homeIface_documented 0 _

end SmbDiscover
