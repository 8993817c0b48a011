import Yardsort.Server.PairingRuns

/- Accounts apart. A method of the records, used in a call of one account, leaves the rows of every
   other account alone (`perform_alone`), and comes to the same on the rows of its own account
   alone (`perform_of`), so what it answers tells nothing of any other. Some methods look for an
   account and some take an id for enough; for those it is what the tables keep (a grant is of the
   account of its host and its device, ids are given out once) that makes it so. With that, and the
   state every run leads to, the run theorem of the pairing calls (`pairing_kept`). -/
namespace Yardsort.Server.Pairings
open Yardsort.Lib Yardsort.Proto Yardsort.Server.Credentials

namespace Tables

def of (t : Tables) (account : AccountId) : Tables where
  devices := t.devices.filter (·.account = account)
  hosts := t.hosts.filter (·.account = account)
  offers := t.offers.filter (·.account = account)
  grants := t.grants.filter (·.account = account)

structure Same (t u : Tables) : Prop where
  devices : t.devices = u.devices
  hosts : t.hosts = u.hosts
  offers : t.offers.Perm u.offers
  grants : t.grants = u.grants

theorem Same.refl (t : Tables) : t.Same t := ⟨rfl, rfl, .refl _, rfl⟩

theorem Same.of_eq {t u : Tables} (h : t = u) : t.Same u := h ▸ .refl t

/-- Nothing becomes of these rows but that offers may go which have lapsed. -/
structure Untouched (t t' : Tables) (now : Int) : Prop where
  devices : t'.devices = t.devices
  hosts : t'.hosts = t.hosts
  grants : t'.grants = t.grants
  offers : ∀ o ∈ t'.offers, o ∈ t.offers
  open' : (t'.offers.filter (now < ·.expiresAt)).Perm (t.offers.filter (now < ·.expiresAt))

theorem Untouched.refl (t : Tables) (now : Int) : t.Untouched t now :=
  ⟨rfl, rfl, rfl, fun _ h => h, .refl _⟩

/-! ## Rows under their ids -/

section
variable {t : Tables} {account : AccountId}

theorem find_row {α κ : Type} [DecidableEq κ] {key : α → κ} {l : List α} (hl : (l.map key).Nodup)
    {a : α} (ha : a ∈ l) : l.find? (fun b => key b = key a) = some a := by
  cases h : l.find? fun b => key b = key a with
  | none => simpa using List.find?_eq_none.mp h a ha
  | some b =>
    have hkey : key b = key a := by simpa using List.find?_some h
    rw [List.inj_on_of_nodup_map hl (mem_of_find?_eq_some h) ha hkey]

theorem find_of {α κ : Type} [DecidableEq κ] {key : α → κ} {l : List α} (hl : (l.map key).Nodup)
    {p : α → Bool} {k : κ} (h : ∃ a ∈ l, key a = k ∧ p a = true) :
    (l.filter p).find? (fun b => key b = k) = l.find? fun b => key b = k := by
  obtain ⟨a, ha, rfl, hp⟩ := h
  rw [find_row hl ha, find_row (hl.sublist (filter_sublist.map _)) (mem_filter.mpr ⟨ha, hp⟩)]

theorem host_of (id : HostId) : (t.of account).host account id = t.host account id := by
  unfold host of
  rw [List.find?_filter]
  congr 1
  funext h
  by_cases haccount : h.account = account <;> simp [haccount]

theorem view_of (h : t.Good) {g : GrantRow} (hg : g ∈ t.grants) (haccount : g.account = account) :
    (t.of account).view g = t.view g := by
  obtain ⟨d, hd, hid, hdevice⟩ := h.grantDevices g hg
  obtain ⟨host, hhost, hhostId, hhostAccount⟩ := h.grantHosts g hg
  have hdevices : (t.of account).device g.device = t.device g.device :=
    find_of h.deviceIds ⟨d, hd, hid, by simp [hdevice, haccount]⟩
  have hhosts : (t.of account).hosts.find? (·.id = g.host) = t.hosts.find? (·.id = g.host) :=
    find_of h.hostIds ⟨host, hhost, hhostId, by simp [hhostAccount, haccount]⟩
  unfold view
  rw [hdevices, hhosts]

theorem grantsOne_of (h : t.Good) (id : GrantId) :
    (t.of account).grantsOne account id = t.grantsOne account id := by
  have hsame : (t.of account).grants.filter (·.account = account) = (t.of account).grants :=
    filter_eq_self.mpr fun g hg => (mem_filter.mp hg).2
  unfold grantsOne
  rw [hsame]
  congr 1
  refine map_congr_left fun g hg => ?_
  obtain ⟨hmem, haccount⟩ := mem_filter.mp (mem_of_mem_filter hg)
  exact view_of h hmem (by simpa using haccount)

theorem mapGrants_of (f : GrantRecord → GrantRecord) :
    (t.mapGrants f).of account = (t.of account).mapGrants f := by
  unfold of mapGrants
  simp only [filter_map]
  rfl

theorem decide_of (id : GrantId) (decision : Option GrantDecision) (now : Int) :
    (t.of account).decide account id decision now =
      (t.decide account id decision now).map (·.of account) := by
  have hfind : ((t.of account).grants.find? fun g =>
      g.id = id && g.account = account && g.waits now) =
      t.grants.find? fun g => g.id = id && g.account = account && g.waits now := by
    rw [of, List.find?_filter]
    congr 1
    funext g
    by_cases haccount : g.account = account <;> simp [haccount]
  unfold decide
  rw [hfind, Option.map_map]
  congr 1
  funext grant
  exact (mapGrants_of _).symm

theorem revokeGrant_of (id : GrantId) (now : Int) :
    ((t.revokeGrant account id now).1).of account = ((t.of account).revokeGrant account id now).1 := by
  have hfind : ((t.of account).grants.find? fun g => g.id = id && g.account = account) =
      t.grants.find? fun g => g.id = id && g.account = account := by
    rw [of, List.find?_filter]
    congr 1
    funext g
    by_cases haccount : g.account = account <;> simp [haccount]
  unfold revokeGrant
  rw [hfind]
  split
  · rfl
  · exact mapGrants_of _

theorem mapHosts_of {f : HostRow → HostRow} (hf : ∀ h, (f h).account = h.account) :
    ({ t with hosts := t.hosts.map f : Tables }).of account =
      { t.of account with hosts := (t.of account).hosts.map f } := by
  unfold of
  simp only [filter_map]
  have hsame : (fun h : HostRow => Decidable.decide (h.account = account)) ∘ f =
      fun h => Decidable.decide (h.account = account) := by
    funext h
    simp [hf]
  rw [hsame]

theorem filter_append_of {α : Type} {l : List α} {p : α → Bool} {a : α} (ha : p a = true) :
    (l ++ [a]).filter p = l.filter p ++ [a] := by
  rw [filter_append]
  simp [ha]

theorem rebindHost_of (id : HostId) (device : DeviceId) (name : String) :
    ((t.rebindHost account id device name).1.of account,
      (t.rebindHost account id device name).2) = (t.of account).rebindHost account id device name := by
  unfold rebindHost
  rw [host_of]
  split
  · rfl
  have hmapped := @mapHosts_of t account (fun h =>
    if h.id = id ∧ h.account = account ∧ h.removed = false then { h with device, name } else h)
    fun h => by split <;> rfl
  dsimp only at hmapped ⊢
  rw [← hmapped, host_of]

theorem filter_comm {α : Type} (l : List α) (p q : α → Bool) :
    (l.filter p).filter q = (l.filter q).filter p := by
  rw [filter_filter, filter_filter]
  congr 1
  funext a
  exact Bool.and_comm ..

theorem removeHost_of (id : HostId) (now : Int) :
    (t.removeHost account id now).1.of account = ((t.of account).removeHost account id now).1 := by
  unfold removeHost
  rw [host_of]
  split
  · rfl
  have hhosts := @mapHosts_of t account (fun h =>
    if h.id = id ∧ h.account = account ∧ h.removed = false then { h with removed := true } else h)
    fun h => by split <;> rfl
  have hgrants := @mapGrants_of t account fun g => if g.host = id then g.takenBack now else g
  have hoffers := filter_comm t.offers (·.host ≠ id) (·.account = account)
  have hhosts' := congrArg hosts hhosts
  have hgrants' := congrArg grants hgrants
  unfold of at hhosts' hgrants' ⊢
  dsimp only at hhosts' hgrants' ⊢
  rw [hhosts', hgrants', hoffers]
  rfl

theorem revoke_of (h : t.Good) (id : DeviceId) :
    ((t.revoke account id).1.of account, (t.revoke account id).2) =
      (t.of account).revoke account id := by
  by_cases hown : ∃ d ∈ t.devices, d.id = id ∧ Decidable.decide (d.account = account) = true
  · have hfind := find_of h.deviceIds hown
    obtain ⟨d, hd, rfl, haccount⟩ := hown
    rw [decide_eq_true_eq] at haccount
    have hrow := find_row h.deviceIds hd
    have hrow' : (t.of account).devices.find? (·.id = d.id) = some d := hfind.trans hrow
    unfold revoke
    rw [hrow, hrow']
    dsimp only
    rw [if_pos haccount, if_pos haccount]
    unfold of
    simp only [filter_map]
    have hsame : (fun e : DeviceRow => Decidable.decide (e.account = account)) ∘
        (fun e => if e.id = d.id then { e with revoked := true } else e) =
        fun e => Decidable.decide (e.account = account) := by
      funext e
      by_cases hid : e.id = d.id <;> simp [hid]
    rw [hsame]
  · have hnone : (t.of account).devices.find? (·.id = id) = none := by
      refine List.find?_eq_none.mpr fun d hd hid => hown ?_
      obtain ⟨hmem, haccount⟩ := mem_filter.mp hd
      exact ⟨d, hmem, by simpa using hid, haccount⟩
    unfold revoke
    rw [hnone]
    split
    · rfl
    rename_i d hfound
    have hother : d.account ≠ account := fun heq => hown
      ⟨d, mem_of_find?_eq_some hfound, by simpa using List.find?_some hfound, by simpa using heq⟩
    rw [if_neg hother]

theorem putOffer_of {offer : HostOffer} (hoffer : offer.account = account) (now : Int) :
    (t.putOffer offer now).of account = (t.of account).putOffer offer now := by
  unfold putOffer of
  dsimp only
  rw [filter_append_of (by simpa using hoffer), filter_comm]

theorem eraseP_filter {α : Type} (l : List α) (p q : α → Bool) (h : ∀ a, p a = true → q a = true) :
    (l.eraseP p).filter q = (l.filter q).eraseP p := by
  induction l with
  | nil => rfl
  | cons a l ih =>
    by_cases hp : p a = true
    · rw [List.eraseP_cons_of_pos hp, filter_cons_of_pos (h a hp), List.eraseP_cons_of_pos hp]
    · rw [List.eraseP_cons_of_neg hp]
      by_cases hq : q a = true
      · rw [filter_cons_of_pos hq, filter_cons_of_pos hq, List.eraseP_cons_of_neg hp, ih]
      · rw [filter_cons_of_neg hq, filter_cons_of_neg hq, ih]

theorem redeemOffer_spec (t : Tables) (account : AccountId) (key : TokenHash) (now : Int) :
    let p : HostOffer → Bool := fun o => o.open' account now && o.answers key
    (t.redeemOffer account key now).2 = t.offers.find? p ∧
      ((t.redeemOffer account key now).1.offers.Perm
        (if (t.offers.find? p).isSome then t.offers.eraseP p
          else t.offers.map (·.missed account now))) ∧
      (t.redeemOffer account key now).1 =
        { t with offers := (t.redeemOffer account key now).1.offers } := by
  intro p
  unfold redeemOffer
  split
  · rename_i i hfind
    obtain ⟨hi, hp, hbefore⟩ := List.findIdx?_eq_some_iff_getElem.mp hfind
    have hfound : t.offers.find? p = t.offers[i]? := by
      rw [List.find?_eq_bind_findIdx?_getElem?, hfind, bind_some]
    have herase : t.offers.eraseP p = t.offers.eraseIdx i := by
      rw [List.eraseP_eq_eraseIdx, hfind]
    refine ⟨hfound.symm, ?_, rfl⟩
    rw [hfound, List.getElem?_eq_getElem hi, Option.isSome_some, if_pos rfl, herase]
    exact swapRemove_perm hi
  · rename_i hnone
    have hfound : t.offers.find? p = none := by
      rw [List.findIdx?_eq_none_iff] at hnone
      exact List.find?_eq_none.mpr fun o ho => by simp [p, hnone o ho]
    rw [hfound]
    exact ⟨rfl, .refl _, rfl⟩

theorem redeemOffer_of (key : TokenHash) (now : Int) :
    (t.redeemOffer account key now).2 = ((t.of account).redeemOffer account key now).2 ∧
      ((t.redeemOffer account key now).1.of account).Same
        ((t.of account).redeemOffer account key now).1 := by
  obtain ⟨hfound, hoffers, htables⟩ := redeemOffer_spec t account key now
  obtain ⟨hfound', hoffers', htables'⟩ := redeemOffer_spec (t.of account) account key now
  have hown : ∀ o : HostOffer, (o.open' account now && o.answers key) = true →
      Decidable.decide (o.account = account) = true := by
    intro o ho
    simp only [HostOffer.open', Bool.and_eq_true] at ho
    exact ho.1.1.1
  have hfind : ((t.of account).offers.find? fun o => o.open' account now && o.answers key) =
      t.offers.find? fun o => o.open' account now && o.answers key := by
    rw [of, List.find?_filter]
    congr 1
    funext o
    cases ho : (o.open' account now && o.answers key) with
    | false => simp
    | true => simp [hown o ho]
  rw [hfind] at hfound' hoffers'
  refine ⟨hfound.trans hfound'.symm, ?_⟩
  rw [htables, htables']
  refine ⟨rfl, rfl, ?_, rfl⟩
  refine (hoffers.filter _).trans (List.Perm.trans ?_ hoffers'.symm)
  split
  · rw [eraseP_filter _ _ _ hown]
    exact .refl _
  · have hsame : (fun o : HostOffer => Decidable.decide (o.account = account)) ∘
        (fun o : HostOffer => o.missed account now) =
          fun o => Decidable.decide (o.account = account) := by
      funext o
      simp [missed_same o account now]
    rw [filter_map, hsame]
    exact .refl _

end

end Tables

variable {other : AccountId}

section
variable {t u : Tables} {caller : Caller} {serial : Nat} {now : Int} {job : Job}

/-- Two outcomes that differ in no more than the rows of other accounts. -/
structure Outcome.Alike (account : AccountId) (done done' : Outcome) : Prop where
  next : done.next = done'.next
  event : done.event = done'.event
  tables : (done.tables.of account).Same done'.tables

theorem ifOwn_of (id : HostId) (next : HostRow → Next) :
    (ifOwn t caller id next).Alike caller.account (ifOwn (t.of caller.account) caller id next) := by
  unfold ifOwn
  rw [Tables.host_of]
  split <;> exact ⟨rfl, rfl, .refl _⟩

/-- **A method reads the rows of its caller's account only.** What the call does next or answers,
    and what becomes of the account's rows, is what comes of these rows alone. -/
theorem perform_of (h : t.Good) : (perform t serial caller now job).Alike caller.account
    (perform (t.of caller.account) serial caller now job) := by
  cases job with
  | addHost name fresh =>
    refine ⟨rfl, rfl, .of_eq ?_⟩
    show (t.addHost _).of _ = (t.of _).addHost _
    unfold Tables.of Tables.addHost
    dsimp only
    rw [Tables.filter_append_of (by simp)]
  | rebindHost id name =>
    have hof := @Tables.rebindHost_of t caller.account id caller.device name
    dsimp only [perform]
    rw [← hof]
    generalize t.rebindHost caller.account id caller.device name = result
    obtain ⟨t', _ | host⟩ := result <;> exact ⟨rfl, rfl, .refl _⟩
  | offerHost id secret code | grantHost view purpose | decideHost view decision
  | removeOwn id => exact ifOwn_of ..
  | putOffer host secret code =>
    exact ⟨rfl, rfl, .of_eq (Tables.putOffer_of rfl now)⟩
  | redeemOffer key scopes fresh =>
    obtain ⟨hfound, htables⟩ := @Tables.redeemOffer_of t caller.account key now
    dsimp only [perform]
    generalize t.redeemOffer caller.account key now = result at hfound htables
    generalize (t.of caller.account).redeemOffer caller.account key now = result' at hfound htables
    obtain ⟨t', found⟩ := result
    obtain ⟨u', found'⟩ := result'
    obtain rfl : found = found' := hfound
    cases found <;> exact ⟨rfl, rfl, htables⟩
  | pairHost offer scopes fresh =>
    dsimp only [perform]
    rw [Tables.host_of]
    split
    · exact ⟨rfl, rfl, .refl _⟩
    · split <;> exact ⟨rfl, rfl, .refl _⟩
  | addGrant host scopes fresh =>
    refine ⟨rfl, rfl, .of_eq ?_⟩
    show (t.addGrant _).of _ = (t.of _).addGrant _
    unfold Tables.of Tables.addGrant
    dsimp only
    rw [Tables.filter_append_of (by simp)]
  | grants id purpose =>
    dsimp only [perform]
    rw [Tables.grantsOne_of h]
    split
    · exact ⟨rfl, rfl, .refl _⟩
    · split <;> exact ⟨rfl, rfl, .refl _⟩
  | decide id decision =>
    dsimp only [perform]
    rw [Tables.decide_of]
    cases t.decide caller.account id decision now <;> exact ⟨rfl, rfl, .refl _⟩
  | revokeGrant id => exact ⟨rfl, rfl, .of_eq (Tables.revokeGrant_of id now)⟩
  | removeHost id => exact ⟨rfl, rfl, .of_eq (Tables.removeHost_of id now)⟩
  | revoke device =>
    have hof := @Tables.revoke_of t caller.account h device
    dsimp only [perform]
    rw [← hof]
    generalize t.revoke caller.account device = result
    obtain ⟨t', _ | _⟩ := result <;> exact ⟨rfl, rfl, .refl _⟩

/-! ## What other accounts keep -/

theorem Tables.Untouched.of_same {t t' : Tables} {now : Int} (h : t'.of other = t.of other) :
    (t.of other).Untouched (t'.of other) now :=
  h ▸ .refl _ now

theorem Tables.mapGrants_apart {other : AccountId} {f : GrantRecord → GrantRecord}
    (hf : ∀ g ∈ t.grants, g.account = other → f g.toGrantRecord = g.toGrantRecord) :
    (t.mapGrants f).of other = t.of other := by
  rw [mapGrants_of]
  have hsame : (t.of other).grants.map (fun g => { g with toGrantRecord := f g.toGrantRecord }) =
      (t.of other).grants := by
    refine (map_congr_left fun g hg => ?_).trans (map_id _)
    obtain ⟨hmem, haccount⟩ := mem_filter.mp hg
    rw [hf g hmem (by simpa using haccount)]
    rfl
  unfold mapGrants
  rw [hsame]

theorem Tables.mapHosts_apart {other : AccountId} {f : HostRow → HostRow}
    (hf : ∀ h, (f h).account = h.account) (hsame : ∀ h : HostRow, h.account = other → f h = h) :
    ({ t with hosts := t.hosts.map f : Tables }).of other = t.of other := by
  rw [mapHosts_of hf]
  have hmap : (t.of other).hosts.map f = (t.of other).hosts := by
    refine (map_congr_left fun h hh => ?_).trans (map_id _)
    exact hsame h (by simpa using (mem_filter.mp hh).2)
  rw [hmap]

theorem filter_append_apart {α : Type} {l : List α} {p : α → Bool} {a : α} (ha : p a = false) :
    (l ++ [a]).filter p = l.filter p := by
  rw [filter_append]
  simp [ha]

theorem Tables.Good.host_account (h : t.Good) {account account' : AccountId} {id : HostId}
    (ha : t.HasHost account id) (hb : t.HasHost account' id) : account = account' := by
  obtain ⟨a, ha, haid, rfl⟩ := ha
  obtain ⟨b, hb, hbid, rfl⟩ := hb
  rw [h.host_eq ha hb (haid.trans hbid.symm)]

theorem putOffer_apart (h : t.Good) {offer : HostOffer} (hhost : t.HasHost offer.account offer.host)
    (hother : offer.account ≠ other) :
    (t.of other).Untouched ((t.putOffer offer now).of other) now := by
  have hkept : ((t.putOffer offer now).of other).offers =
      (t.of other).offers.filter (now < ·.expiresAt) := by
    show ((t.offers.filter _) ++ [offer]).filter _ = (t.offers.filter _).filter _
    rw [filter_append_apart (by simpa using hother), Tables.filter_comm]
    refine filter_congr fun o ho => ?_
    obtain ⟨hmem, haccount⟩ := mem_filter.mp ho
    have hapart : o.host ≠ offer.host := fun heq => hother (h.host_account hhost
      (heq ▸ (by simpa using haccount : o.account = other) ▸ h.offers o hmem))
    simp [hapart]
  refine ⟨rfl, rfl, rfl, fun o ho => ?_, ?_⟩
  · rw [hkept] at ho
    exact mem_of_mem_filter ho
  · rw [hkept, filter_filter]
    simp

theorem eraseP_filter_apart {α : Type} (l : List α) (p q : α → Bool)
    (h : ∀ a, p a = true → q a = false) : (l.eraseP p).filter q = l.filter q := by
  induction l with
  | nil => rfl
  | cons a l ih =>
    by_cases hp : p a = true
    · rw [List.eraseP_cons_of_pos hp, filter_cons_of_neg (by simp [h a hp])]
    · rw [List.eraseP_cons_of_neg hp]
      by_cases hq : q a = true
      · rw [filter_cons_of_pos hq, filter_cons_of_pos hq, ih]
      · rw [filter_cons_of_neg hq, filter_cons_of_neg hq, ih]

theorem redeemOffer_apart {key : TokenHash} {account other : AccountId} (hother : account ≠ other) :
    (t.of other).Untouched ((t.redeemOffer account key now).1.of other) now := by
  obtain ⟨-, hoffers, htables⟩ := Tables.redeemOffer_spec t account key now
  have hperm : ((t.redeemOffer account key now).1.of other).offers.Perm (t.of other).offers := by
    refine (hoffers.filter _).trans ?_
    split
    -- the offer that was taken is the account's own
    · rw [eraseP_filter_apart]
      · exact .refl _
      · intro o ho
        simp only [HostOffer.open', Bool.and_eq_true, decide_eq_true_eq] at ho
        simpa [ho.1.1.1] using hother
    · have haccount : (fun o : HostOffer => Decidable.decide (o.account = other)) ∘
          (fun o : HostOffer => o.missed account now) =
            fun o => Decidable.decide (o.account = other) := by
        funext o
        simp [Tables.missed_same o account now]
      rw [filter_map, haccount]
      refine .of_eq ((map_congr_left fun o ho => ?_).trans (map_id _))
      have ho : o.account = other := by simpa using (mem_filter.mp ho).2
      simp [HostOffer.missed, HostOffer.open', ho, hother.symm]
  rw [htables]
  exact ⟨rfl, rfl, rfl, fun o ho => hperm.subset ho, hperm.filter _⟩

theorem decide_apart (h : t.Good) {account : AccountId} {id : GrantId}
    {decision : Option GrantDecision} {t' : Tables}
    (ht : t.decide account id decision now = some t') (hother : account ≠ other) :
    t'.of other = t.of other := by
  obtain ⟨grant, hfind, rfl⟩ := map_eq_some_iff.mp ht
  have hgrant := mem_of_find?_eq_some hfind
  have hfound := List.find?_some hfind
  simp only [Bool.and_eq_true, decide_eq_true_eq] at hfound
  obtain ⟨⟨hid, rfl⟩, -⟩ := hfound
  refine Tables.mapGrants_apart fun g hg haccount => ?_
  rw [if_neg fun hgid => hother (by rw [← haccount, h.grant_eq hg hgrant (hgid.trans hid.symm)])]
  rw [if_neg fun hreplaces => ?_]
  -- a grant it replaces is on its host, so of its account
  simp only [GrantRecord.replaces, Bool.and_eq_true, decide_eq_true_eq] at hreplaces
  have hhost := h.grantHosts g hg
  rw [hreplaces.2.1.1, haccount] at hhost
  exact hother (h.host_account (h.grantHosts grant hgrant) hhost)

theorem revokeGrant_apart (h : t.Good) {account : AccountId} {id : GrantId}
    (hother : account ≠ other) : ((t.revokeGrant account id now).1).of other = t.of other := by
  unfold Tables.revokeGrant
  split
  · rfl
  rename_i grant hfind
  have hgrant := mem_of_find?_eq_some hfind
  have hfound := List.find?_some hfind
  simp only [Bool.and_eq_true, decide_eq_true_eq] at hfound
  refine Tables.mapGrants_apart fun g hg haccount => if_neg fun hgid => hother ?_
  rw [← haccount, ← hfound.2, h.grant_eq hg hgrant (hgid.trans hfound.1.symm)]

theorem removeHost_apart (h : t.Good) {account : AccountId} {id : HostId}
    (hother : account ≠ other) :
    (t.of other).Untouched ((t.removeHost account id now).1.of other) now := by
  unfold Tables.removeHost
  split
  · exact .refl _ now
  rename_i host hfound
  obtain ⟨hmem, hid, haccount, -⟩ := Tables.host_mem hfound
  have hhost : t.HasHost account id := ⟨host, hmem, hid, haccount⟩
  have hgrants := @Tables.mapGrants_apart t other
    (fun g => if g.host = id then g.takenBack now else g) fun g hg hg_other => by
      refine if_neg fun hgid => hother (h.host_account hhost ?_)
      have hgrant := h.grantHosts g hg
      rwa [hgid, hg_other] at hgrant
  have hhosts := @Tables.mapHosts_apart t other (fun h =>
    if h.id = id ∧ h.account = account ∧ h.removed = false then { h with removed := true } else h)
    (fun h => by split <;> rfl) fun h hh => if_neg fun hcond => hother (hcond.2.1.symm.trans hh)
  have hoffers : (t.offers.filter (·.host ≠ id)).filter (·.account = other) =
      t.offers.filter (·.account = other) := by
    rw [filter_filter]
    refine filter_congr fun o ho => ?_
    by_cases ho_other : o.account = other
    · have hapart : o.host ≠ id := fun heq => hother
        (h.host_account hhost (heq ▸ ho_other ▸ h.offers o ho))
      simp [ho_other, hapart]
    · simp [ho_other]
  refine .of_same ?_
  have hhosts' := congrArg Tables.hosts hhosts
  have hgrants' := congrArg Tables.grants hgrants
  unfold Tables.of at hhosts' hgrants' ⊢
  dsimp only at hhosts' hgrants' ⊢
  rw [hhosts', hgrants', hoffers]
  rfl

theorem revoke_apart (h : t.Good) {account other : AccountId} {id : DeviceId}
    (hother : account ≠ other) : (t.revoke account id).1.of other = t.of other := by
  unfold Tables.revoke
  split
  · rfl
  rename_i device hfound
  split
  · rename_i haccount
    have hmem := mem_of_find?_eq_some hfound
    have hid : device.id = id := by simpa using List.find?_some hfound
    unfold Tables.of
    dsimp only
    have hsame : (fun d : DeviceRow => Decidable.decide (d.account = other)) ∘
        (fun d => if d.id = id then { d with revoked := true } else d) =
        fun d => Decidable.decide (d.account = other) := by
      funext d
      by_cases hd : d.id = id <;> simp [hd]
    rw [filter_map, hsame]
    congr 1
    refine (map_congr_left fun d hd => ?_).trans (map_id _)
    obtain ⟨hd_mem, hd_other⟩ := mem_filter.mp hd
    refine if_neg fun heq => hother ?_
    have hsame := List.inj_on_of_nodup_map h.deviceIds hd_mem hmem (heq.trans hid.symm)
    rw [← haccount, ← hsame]
    simpa using hd_other
  · rfl

theorem ifOwn_apart (id : HostId) (next : HostRow → Next) :
    (t.of other).Untouched ((ifOwn t caller id next).tables.of other) now := by
  rw [ifOwn_tables]
  exact .refl _ now

/-- **A method changes no rows but its caller's account's.** -/
theorem perform_alone (h : t.Good) (hjob : job.Sound t caller.account)
    (hother : caller.account ≠ other) :
    (t.of other).Untouched ((perform t serial caller now job).tables.of other) now := by
  cases job with
  | addHost name fresh =>
    refine .of_same ?_
    show (t.addHost _).of _ = t.of _
    unfold Tables.of Tables.addHost
    dsimp only
    rw [filter_append_apart (by simpa using hother)]
  | rebindHost id name =>
    have hmapped := @Tables.mapHosts_apart t other (fun h =>
      if h.id = id ∧ h.account = caller.account ∧ h.removed = false then
        { h with device := caller.device, name } else h)
      (fun h => by split <;> rfl) fun h hh => if_neg fun hcond => hother (hcond.2.1.symm.trans hh)
    have hsame : (t.rebindHost caller.account id caller.device name).1.of other = t.of other := by
      unfold Tables.rebindHost
      split
      · rfl
      · exact hmapped
    dsimp only [perform]
    generalize t.rebindHost caller.account id caller.device name = result at hsame
    obtain ⟨t', _ | host⟩ := result <;> exact .of_same hsame
  | offerHost id secret code | grantHost view purpose | decideHost view decision
  | removeOwn id => exact ifOwn_apart ..
  | putOffer host secret code => exact putOffer_apart h hjob hother
  | redeemOffer key scopes fresh =>
    have hapart := @redeemOffer_apart t now key caller.account other hother
    dsimp only [perform]
    generalize t.redeemOffer caller.account key now = result at hapart
    obtain ⟨t', _ | offer⟩ := result <;> exact hapart
  | pairHost offer scopes fresh | grants id purpose =>
    dsimp only [perform]
    split
    · exact .refl _ now
    · split <;> exact .refl _ now
  | addGrant host scopes fresh =>
    refine .of_same ?_
    show (t.addGrant _).of _ = t.of _
    unfold Tables.of Tables.addGrant
    dsimp only
    rw [filter_append_apart (by simpa using hother)]
  | decide id decision =>
    dsimp only [perform]
    split
    · exact .refl _ now
    · rename_i heq
      exact .of_same (decide_apart h heq hother)
  | revokeGrant id => exact .of_same (revokeGrant_apart h hother)
  | removeHost id => exact removeHost_apart h hother
  | revoke device =>
    have hapart := @revoke_apart t h caller.account other device hother
    dsimp only [perform]
    generalize t.revoke caller.account device = result at hapart
    obtain ⟨t', _ | _⟩ := result <;> exact .of_same hapart

end

structure Paired (s : System) : Prop where
  single : s.tables.Single
  approved : ∀ g ∈ s.tables.grants, g.status = .approved → Tables.Approved g
  /-- A host has one offer at most, open or not. -/
  offers : (s.tables.offers.map (·.host)).Nodup
  redeems : Redeems s.log
  cleared : s.tables.Cleared

structure Moves (s s' : System) : Prop where
  kept : ∀ g ∈ s.tables.grants, ∃ g' ∈ s'.tables.grants, g.Becomes g'
  came : ∀ g' ∈ s'.tables.grants, (∃ g ∈ s.tables.grants, g.Becomes g') ∨ g'.status = .pending

/-- A step of a call changes no rows of other accounts, and is what comes of its own account's rows
    alone. -/
def Apart (s : System) (a : Act) (s' : System) : Prop :=
  ∀ k caller now job, a = .does k → s.calls[k]? = some ⟨caller, now, .goes job⟩ →
    (∀ other, caller.account ≠ other →
      (s.tables.of other).Untouched (s'.tables.of other) now) ∧
    (perform s.tables s.log.length caller now job).Alike caller.account
      (perform (s.tables.of caller.account) s.log.length caller now job)

/-- What is promised of the calls, in the state a run leads to and in the next step. -/
def PairsWell (as : List Act) : Prop :=
  ∀ s, Lib.run step .empty as = some s → Paired s ∧
    ∀ a s', step s a = some s' → Moves s s' ∧ Apart s a s'

theorem step_apart {s s' : System} {a : Act} (h : step s a = some s') (hs : s.Good) :
    Apart s a s' := by
  rintro k caller now job rfl hk
  obtain ⟨caller', now', job', hk', -, rfl⟩ := does_cases h
  have hsame := Option.some.inj (hk.symm.trans hk')
  obtain ⟨rfl, rfl, hjob⟩ := Call.mk.inj hsame
  cases hjob
  exact ⟨fun other hother => perform_alone hs.tables (hs.calls _ (mem_of_getElem? hk)) hother,
    perform_of hs.tables⟩

/-- **Pairing calls keep to what is promised.** In every run whose requests are added while their
    hosts are there: one grant is in force for a device on a host, within what was asked for and in
    time; a host has one offer, redeemed once and after few misses; a host that was removed has no
    grant that waits or is in force; grants only move on; and accounts stay apart. -/
theorem pairing_kept {as : List Act} (h : Meets step Careful .empty as) : PairsWell as := by
  intro s hrun
  have hstep : ∀ s₁ a s₂,
      (System.Good s₁ ∧ Logged s₁.tables.offers s₁.log ∧ s₁.tables.Cleared) → Careful s₁ a →
      step s₁ a = some s₂ →
      (System.Good s₂ ∧ Logged s₂.tables.offers s₂.log ∧ s₂.tables.Cleared) :=
    fun _ _ _ ⟨hgood, hlogged, hcleared⟩ hcareful hstep =>
      ⟨(step_good hstep hgood).1, step_logged hstep hlogged,
        step_cleared hstep hgood hcleared hcareful⟩
  have hempty : System.empty.tables.Cleared := by simp [System.empty, Tables.empty, Tables.Cleared]
  obtain ⟨hgood, hlogged, hcleared⟩ :=
    h.invariant hstep hrun ⟨empty_system_good, empty_logged, hempty⟩
  refine ⟨⟨hgood.tables.single, hgood.tables.approved, hgood.tables.offerHosts, hlogged.redeems,
    hcleared⟩, fun a s' hs' => ⟨⟨(step_good hs' hgood).2.grants, fun g' hg' => ?_⟩,
    step_apart hs' hgood⟩⟩
  exact (step_grants hs' hgood hg').imp_right fun hnew => hnew.1

theorem d1_ok : checkId "d1" = .ok () := by decide
theorem h1_ok : checkId "h1" = .ok () := by decide
theorem g1_ok : checkId "g1" = .ok () := by decide

def desk : DeviceRow := ⟨⟨⟨"d1", d1_ok⟩, "Desk", false⟩, "ann", .host⟩
def phone : DeviceRow := ⟨⟨⟨"d2", by decide⟩, "Phone", false⟩, "ann", .phone⟩
def deskHost : HostId := ⟨"h1", h1_ok⟩
def phoneGrant : GrantId := ⟨"g1", g1_ok⟩

/-- A host registers and shows an offer; a phone redeems it, and finds the host. -/
def redeemedRun : List Act :=
  [.signsIn desk, .signsIn phone, .calls desk.id (.register none (.ok "Desk") deskHost), .does 0,
    .calls desk.id (.offer deskHost 11 22), .does 1, .does 1,
    .calls phone.id (.pair (.key 22) {.terminalRead} phoneGrant), .does 2, .does 2]

def approvedRun : List Act :=
  redeemedRun ++ [Act.does 2, .does 2,
    .calls desk.id (.decide phoneGrant (some ⟨{.terminalRead}, .all⟩)),
    .does 3, .does 3, .does 3, .does 3]

def removedRun : List Act :=
  redeemedRun ++ [Act.calls desk.id (.removeHost deskHost), .does 3, .does 3, .does 2]

theorem pairing_kept_approved : (Lib.run step .empty approvedRun).isSome = true ∧
    PairsWell approvedRun := by
  refine ⟨by decide +kernel, pairing_kept ?_⟩
  have hmeets : meets step (fun s a => decide (Careful s a)) .empty approvedRun = true := by
    decide +kernel
  simpa only [decide_eq_true_eq] using meets_iff.mp hmeets

theorem asked_of_removed : ¬ ∀ as, PairsWell as := by
  have hstate : ((Lib.run step .empty removedRun).map fun s =>
      (s.tables.hosts.map fun h => (h.id, h.removed), s.tables.grants.map fun g => (g.host, g.status))) =
      some ([(deskHost, true)], [(deskHost, .pending)]) := by
    decide +kernel
  intro h
  obtain ⟨s, hs, hsame⟩ := map_eq_some_iff.mp hstate
  obtain ⟨hhosts, hgrants⟩ := Prod.mk.inj hsame
  have hhost : (deskHost, true) ∈ s.tables.hosts.map fun h => (h.id, h.removed) := by
    simp [hhosts]
  have hgrant : (deskHost, GrantStatus.pending) ∈ s.tables.grants.map fun g => (g.host, g.status) := by
    simp [hgrants]
  obtain ⟨host, hmem, hhost_eq⟩ := mem_map.mp hhost
  obtain ⟨grant, hgrant_mem, hgrant_eq⟩ := mem_map.mp hgrant
  obtain ⟨hid, hremoved⟩ := Prod.mk.inj hhost_eq
  obtain ⟨hon, hpending⟩ := Prod.mk.inj hgrant_eq
  exact ((h removedRun s hs).1.cleared host hmem hremoved grant hgrant_mem (hon.trans hid.symm)).1
    hpending

/-- **Grants only move on**, however the calls go, requests on removed hosts included: from any
    state they reach, nothing but offers is ever taken out, a grant keeps its host, device and
    request and is answered for good, and one of a device on a host is in force at most. -/
theorem grants_move_on {as bs : List Act} {s s' : System} (hr : Lib.run step .empty as = some s)
    (hbs : Lib.run step s bs = some s') :
    s.tables.Grows s'.tables ∧ s'.tables.Single ∧
      ∀ g ∈ s'.tables.grants, g.status = .approved → Tables.Approved g := by
  have hstep : ∀ s₁ a s₂, System.Good s₁ → step s₁ a = some s₂ →
      s₂.Good ∧ s₁.tables.Grows s₂.tables := fun _ _ _ hgood hs => step_good hs hgood
  have hkeeps : ∀ s₁ a s₂, System.Good s₁ → step s₁ a = some s₂ → s₂.Good :=
    fun s₁ a s₂ hgood hs => (hstep s₁ a s₂ hgood hs).1
  have hgood := run_invariant hkeeps hr empty_system_good
  have hgood' := run_invariant hkeeps hbs hgood
  refine ⟨?_, hgood'.tables.single, hgood'.tables.approved⟩
  exact run_related (R := fun s₁ s₂ => s₁.tables.Grows s₂.tables) (fun s₁ => .refl s₁.tables)
    Tables.Grows.trans hstep hbs hgood

theorem grants_move_on_approved : ∃ s s', Lib.run step .empty redeemedRun = some s ∧
    Lib.run step .empty approvedRun = some s' ∧ s.tables.Grows s'.tables := by
  have hsome : (Lib.run step .empty approvedRun).isSome = true := by decide +kernel
  obtain ⟨s', hs'⟩ := Option.isSome_iff_exists.mp hsome
  obtain ⟨s, hs, hrest⟩ := run_append.mp hs'
  exact ⟨s, s', hs, hs', (grants_move_on hs hrest).1⟩

end Yardsort.Server.Pairings
