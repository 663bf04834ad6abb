import Wagering.Guarantees.Responses

/-!
# Reading a transaction back

`GET /wagering/transactions/:id` and its sibling by external identifier show a
provider what has become of its own transactions, at any time after they were
answered, and nothing at all of the transactions of others.
-/

namespace Wagering

open Interleave

/-- What `transactionView` shows of a row. -/
def WagerTransactionRow.view (row : WagerTransactionRow) : TransactionView where
  transactionId := row.id
  providerId := row.providerId
  externalTransactionId := row.externalTransactionId
  walletId := row.walletId
  kind := row.kind
  money := moneyText row.amount row.currency
  status := row.status
  failureCode := row.failureCode
  balance := row.replayed.balance
  processedAt := row.processedAt.map fun at_ => toISOString at_.date

/-- The answer to a reader who names no transaction of its own. -/
def transactionNotFound : Except Failure TransactionView :=
  .error (.application ⟨.resourceNotFound, utf16 "transaction not found", none⟩)

/-- Two states hold the same transactions of a provider. -/
def SameTransactions (providerId : Text) (db db' : Database) : Prop :=
  ∀ t : WagerTransactionRow, t.providerId = providerId → (t ∈ db.wagers ↔ t ∈ db'.wagers)

section Statements

variable [Platform]

/-- The header `X-Provider-Id` declares the provider. -/
def Declares (headers : RequestHeaders) (providerId : Text) : Prop :=
  boundedString ((headers.get (utf16 "x-provider-id")).map Json.string) (utf16 "X-Provider-Id") 64 =
    .ok providerId

/-- The path of a request names the provider and the external identifier. -/
structure PathNames (pathProvider pathExternal providerId externalTransactionId : Text) : Prop where
  provider : boundedString (some (.string pathProvider)) (utf16 "providerId") 64 = .ok providerId
  external : boundedString (some (.string pathExternal)) (utf16 "externalTransactionId") 128 =
    .ok externalTransactionId

variable [Driver]

/-- What reads show, from `w` on. -/
structure ReadsBack (w : Service) : Prop where
  own : ∀ row ∈ w.shared.db.wagers, ∀ w', World.Steps units w w' → ∀ roles headers,
    AppRole.api ∈ roles → Declares headers row.providerId →
    ∃ row' ∈ w'.shared.db.wagers, Ages row row' ∧
      getTransaction roles headers row.id w'.shared.db =
        answered headers.correlationId 200 (.transaction row'.view) ∧
      ∀ pathProvider pathExternal,
        PathNames pathProvider pathExternal row.providerId row.externalTransactionId →
        getTransactionByProvider roles headers pathProvider pathExternal w'.shared.db =
          getTransaction roles headers row.id w'.shared.db
  answered : ∀ (i : Nat) (command : SubmitWagerCommand) (result : SubmitWagerResult),
    result.status.isTerminal = true → w.sessions[i]? = some ⟨.submit command, .closed (.ok (.submitted result))⟩ →
    ∃ row ∈ w.shared.db.wagers, row.id = result.transactionId ∧ command.NamesKey row ∧
      row.view.status = result.status ∧ row.view.failureCode = result.failureCode ∧
      row.view.balance = result.balance
  foreign : ∀ row ∈ w.shared.db.wagers, ∀ id, isUuid id = true →
    w.shared.db.wagerById (uuidText id) = none → ∀ roles headers providerId,
    Declares headers providerId → providerId ≠ row.providerId →
    getTransaction roles headers row.id w.shared.db = getTransaction roles headers id w.shared.db
  blind : ∀ w', Reachable w' → ∀ roles headers,
    (∀ providerId, Declares headers providerId →
      SameTransactions providerId w.shared.db w'.shared.db) →
    ∀ id, getTransaction roles headers id w.shared.db = getTransaction roles headers id w'.shared.db
  blindByProvider : ∀ w', Reachable w' → ∀ roles headers pathProvider pathExternal,
    (∀ providerId external, PathNames pathProvider pathExternal providerId external →
      SameTransactions providerId w.shared.db w'.shared.db) →
    getTransactionByProvider roles headers pathProvider pathExternal w.shared.db =
      getTransactionByProvider roles headers pathProvider pathExternal w'.shared.db

end Statements

/-! ## One read -/

section Reads

variable [Platform] {sh sh' : Shared} {roles : List AppRole} {headers : RequestHeaders}
  {row : WagerTransactionRow} {id providerId externalTransactionId : Text}

theorem transactionView_eq (t : WagerTransaction) :
    transactionView t = (toWagerTransactionRow t).view := by
  have hbalance : t.resultBalance.map Money.toJSON = (toWagerTransactionRow t).replayed.balance :=
    congrArg SubmitWagerResult.balance (replayOf_eq t)
  unfold transactionView WagerTransactionRow.view
  rw [← hbalance]
  rfl

theorem Sound.mem_wagerById (hs : Sound sh) (id : Text) (row : WagerTransactionRow) :
    row ∈ sh.db.wagerById id ↔ row ∈ sh.db.wagers ∧ row.id = id := by
  constructor
  · exact fun h => ⟨Keyed.mem_of_lookup h, Keyed.key_of_lookup h⟩
  · rintro ⟨hmem, rfl⟩
    exact hs.books.wagerIds.lookup hmem

theorem Sound.mem_wagerByExternal (hs : Sound sh) (providerId external : Text)
    (row : WagerTransactionRow) :
    row ∈ sh.db.wagerByExternal providerId external ↔ row ∈ sh.db.wagers ∧
      (row.providerId, row.externalTransactionId) = (Text.stored providerId, Text.stored external) := by
  constructor
  · intro h
    exact ⟨Keyed.mem_of_lookup h, @Keyed.key_of_lookup _ _
      (fun row : WagerTransactionRow => (row.providerId, row.externalTransactionId)) _ _ _ _ h⟩
  · rintro ⟨hmem, hkey⟩
    cases hlookup : sh.db.wagerByExternal providerId external with
    | none => exact absurd hkey (Keyed.lookup_eq_none.mp hlookup row hmem)
    | some other =>
      have hother : (other.providerId, other.externalTransactionId) =
          (row.providerId, row.externalTransactionId) :=
        (Keyed.key_of_lookup hlookup).trans hkey.symm
      obtain ⟨hp, hx⟩ := Prod.mk.inj hother
      exact congrArg some (hs.wager_eq (Keyed.mem_of_lookup hlookup) hmem
        (.wagerExternal other.providerId other.externalTransactionId)
        (by simp [WagerTransactionRow.uniqueKeys])
        (by simp [WagerTransactionRow.uniqueKeys, hp, hx]))

/-- What the reader sees of a row that was found. -/
def ownView (found : Option WagerTransactionRow) (providerId : Text) :
    Except Failure TransactionView :=
  match found with
  | some row => if row.providerId = providerId then .ok row.view else transactionNotFound
  | none => transactionNotFound

/-- A committed row is loaded, and shown to its provider only. -/
theorem Sound.ownView_eq (hs : Sound sh) {found : Option WagerTransactionRow}
    (hfound : ∀ row ∈ found, row ∈ sh.db.wagers) :
    (loadWager found >>= fun found => transactionView <$> mustBeOwnedBy found providerId) =
      ownView found providerId := by
  cases found with
  | none => rfl
  | some row =>
    obtain ⟨t, hload, hstored, -⟩ := (hs.wagers row (hfound row rfl)).load
    have hprovider : t.providerId = row.providerId :=
      congrArg WagerTransactionRow.providerId hstored
    rw [loadWager, hload]
    change transactionView <$> mustBeOwnedBy (some t) providerId = _
    simp only [mustBeOwnedBy, ownView, hprovider]
    split
    · exact congrArg Except.ok ((transactionView_eq t).trans (congrArg _ hstored))
    · rfl

theorem Sound.readTransaction_eq (hs : Sound sh) (hrole : AppRole.api ∈ roles)
    (hid : isUuid id = true) (hdeclares : Declares headers providerId) :
    readTransaction roles headers id sh.db =
      ownView (sh.db.wagerById (uuidText id)) providerId := by
  unfold readTransaction canActivate
  rw [if_pos hrole, hdeclares]
  simp only [requireUuid, hid, if_true]
  change (findWagerById sh.db id >>= fun found =>
    transactionView <$> mustBeOwnedBy found providerId) = _
  unfold findWagerById
  rw [hid]
  exact hs.ownView_eq fun row hrow => ((hs.mem_wagerById _ row).mp hrow).1

theorem Sound.readByProvider_eq (hs : Sound sh) (hrole : AppRole.api ∈ roles)
    {pathProvider pathExternal : Text}
    (hpath : PathNames pathProvider pathExternal providerId externalTransactionId) :
    readTransactionByProvider roles headers pathProvider pathExternal sh.db =
      ownView (sh.db.wagerByExternal providerId externalTransactionId) providerId := by
  unfold readTransactionByProvider canActivate
  rw [if_pos hrole, hpath.provider, hpath.external]
  change (findWagerByExternalId sh.db providerId externalTransactionId >>= fun found =>
    transactionView <$> mustBeOwnedBy found providerId) = _
  exact hs.ownView_eq fun row hrow => ((hs.mem_wagerByExternal _ _ row).mp hrow).1

/-! ## Two states that agree on a provider -/

omit [Platform] in
/-- Where two sound states agree on a provider, so does what it is shown. -/
theorem ownView_same {found found' : Option WagerTransactionRow} {key : WagerTransactionRow → Prop}
    (hagree : SameTransactions providerId sh.db sh'.db)
    (hfound : ∀ row, row ∈ found ↔ row ∈ sh.db.wagers ∧ key row)
    (hfound' : ∀ row, row ∈ found' ↔ row ∈ sh'.db.wagers ∧ key row) :
    ownView found providerId = ownView found' providerId := by
  have hmatch : ∀ row, row.providerId = providerId → (row ∈ found ↔ row ∈ found') :=
    fun row hrow => by rw [hfound, hfound', hagree row hrow]
  have hforeign : ∀ {found : Option WagerTransactionRow},
      (∀ row ∈ found, row.providerId ≠ providerId) →
        ownView found providerId = transactionNotFound := by
    intro found hnot
    cases found with
    | none => rfl
    | some row => exact if_neg (hnot row rfl)
  by_cases hown : ∃ row ∈ found, row.providerId = providerId
  · obtain ⟨row, hrow, hprovider⟩ := hown
    rw [Option.mem_def.mp hrow, Option.mem_def.mp ((hmatch row hprovider).mp hrow)]
  · rw [hforeign fun row hrow h => hown ⟨row, hrow, h⟩,
      hforeign fun row hrow h => hown ⟨row, (hmatch row h).mpr hrow, h⟩]

variable [Driver]

/-- Whatever the request, what a provider is shown by an id depends on its own rows only. -/
theorem getTransaction_same (hs : Sound sh) (hs' : Sound sh')
    (hagree : ∀ providerId, Declares headers providerId →
      SameTransactions providerId sh.db sh'.db) :
    getTransaction roles headers id sh.db = getTransaction roles headers id sh'.db := by
  unfold getTransaction
  refine congrArg _ ?_
  by_cases hrole : AppRole.api ∈ roles
  · by_cases hid : isUuid id = true
    · cases hdeclared : boundedString ((headers.get (utf16 "x-provider-id")).map Json.string)
        (utf16 "X-Provider-Id") 64 with
      | ok providerId =>
        rw [hs.readTransaction_eq hrole hid hdeclared, hs'.readTransaction_eq hrole hid hdeclared]
        exact ownView_same (hagree providerId hdeclared) (hs.mem_wagerById _)
          (hs'.mem_wagerById _)
      | error e =>
        unfold readTransaction
        rw [hdeclared]
        simp only [requireUuid, hid, if_true, canActivate, if_pos hrole]
        rfl
    · unfold readTransaction
      simp only [requireUuid, hid, canActivate, if_pos hrole]
      rfl
  · unfold readTransaction
    simp only [canActivate, if_neg hrole]
    rfl

/-- And so does what it is shown by an external identifier. -/
theorem getTransactionByProvider_same (hs : Sound sh) (hs' : Sound sh')
    {pathProvider pathExternal : Text}
    (hagree : ∀ providerId external, PathNames pathProvider pathExternal providerId external →
      SameTransactions providerId sh.db sh'.db) :
    getTransactionByProvider roles headers pathProvider pathExternal sh.db =
      getTransactionByProvider roles headers pathProvider pathExternal sh'.db := by
  unfold getTransactionByProvider
  refine congrArg _ ?_
  by_cases hrole : AppRole.api ∈ roles
  · cases hprovider : boundedString (some (.string pathProvider)) (utf16 "providerId") 64 with
    | ok providerId =>
      cases hexternal : boundedString (some (.string pathExternal))
        (utf16 "externalTransactionId") 128 with
      | ok external =>
        have hpath : PathNames pathProvider pathExternal providerId external :=
          ⟨hprovider, hexternal⟩
        rw [hs.readByProvider_eq hrole hpath, hs'.readByProvider_eq hrole hpath]
        exact ownView_same (hagree _ _ hpath) (hs.mem_wagerByExternal _ _)
          (hs'.mem_wagerByExternal _ _)
      | error e =>
        unfold readTransactionByProvider
        rw [hprovider, hexternal]
        simp only [canActivate, if_pos hrole]
        rfl
    | error e =>
      unfold readTransactionByProvider
      rw [hprovider]
      simp only [canActivate, if_pos hrole]
      rfl
  · unfold readTransactionByProvider
    simp only [canActivate, if_neg hrole]
    rfl

/-! ## Over every run -/

variable {w w' : Service}

/-- A final answer is what the row of its transaction shows from then on. -/
theorem Reachable.answer_final (h : Reachable w) {i : Nat} {command : SubmitWagerCommand}
    {result : SubmitWagerResult} (hterminal : result.status.isTerminal = true)
    (hs : w.sessions[i]? = some ⟨.submit command, .closed (.ok (.submitted result))⟩) :
    ∃ t, toWagerTransactionRow t ∈ w.shared.db.wagers ∧
      command.NamesKey (toWagerTransactionRow t) ∧ result = resultOf t result.idempotentReplay := by
  obtain ⟨sh, l, result, heq, hhistory, hsound, hown, hsub, hsince⟩ := h.answer_commit hs
  cases heq
  cases hsub with
  | @decided d _ concluded key external hash kept inserted t stored status answer =>
    have hmem : d.tx ∈ (committed sh l).db.wagers :=
      (concluded.books hsound ▸ Books.mem_wagers_record.mpr (.inl rfl) :
        d.tx ∈ (l.view sh.db).books.wagers)
    subst answer
    rw [stored] at hmem key
    exact ⟨t, hsince.terminal _ hmem hterminal, key, rfl⟩
  | @replayed t db row lost mem same db' looked read key hash =>
    have hseen : Seen Service.start w l :=
      (Reachable.seen (Relation.ReflTransGen.refl : Reachable Service.start) h (Nat.zero_le i)).2 _
        ((hhistory _).mpr rfl)
    obtain ⟨mid, hmid, hlater, rfl⟩ := hseen db' (.inr looked)
    refine ⟨t, (Reachable.evolves hmid hlater).terminal _ read hterminal, ?_, rfl⟩
    exact ⟨same.providerId.trans key.providerId, same.idempotencyKey.trans key.idempotencyKey⟩

/-- Over every run of the service a provider reads its own transactions back, and no others. -/
theorem Reachable.readsBack (h : Reachable w) : ReadsBack w where
  own := fun row hrow w' hsteps roles headers hrole hdeclares => by
    have hw' : Reachable w' := Relation.ReflTransGen.trans h hsteps
    obtain ⟨row', hrow', ages⟩ := (h.evolves hsteps).ages h.sound.inv hw'.sound.inv hrow
    have hvalid := h.sound.inv.wagers row hrow
    have hcanonical := (isCanonicalUuid_iff.mp hvalid.uuid).2
    have hbyId : getTransaction roles headers row.id w'.shared.db =
        Wagering.answered headers.correlationId 200 (.transaction row'.view) := by
      have hlookup : w'.shared.db.wagerById (uuidText row.id) = some row' :=
        (hw'.sound.inv.mem_wagerById _ _).mpr ⟨hrow', ages.same.id.symm.trans hcanonical.symm⟩
      unfold getTransaction
      rw [hw'.sound.inv.readTransaction_eq hrole hvalid.canonical hdeclares, hlookup, ownView,
        if_pos ages.same.providerId.symm]
      rfl
    refine ⟨row', hrow', ages, hbyId, fun pathProvider pathExternal hpath => ?_⟩
    have hstored := congrArg WagerTransactionRow.providerId hvalid.stored
    have hexternal := congrArg WagerTransactionRow.externalTransactionId hvalid.stored
    have hlookup : w'.shared.db.wagerByExternal row.providerId row.externalTransactionId =
        some row' :=
      (hw'.sound.inv.mem_wagerByExternal _ _ _).mpr ⟨hrow', Prod.ext
        (ages.same.providerId.symm.trans hstored.symm)
        (ages.same.externalTransactionId.symm.trans hexternal.symm)⟩
    rw [hbyId]
    unfold getTransactionByProvider
    rw [hw'.sound.inv.readByProvider_eq hrole hpath, hlookup, ownView,
      if_pos ages.same.providerId.symm]
    rfl
  answered := fun i command result hterminal hs => by
    obtain ⟨t, hmem, hkey, hresult⟩ := h.answer_final hterminal hs
    rw [hresult]
    exact ⟨_, hmem, rfl, hkey, rfl, rfl,
      (congrArg SubmitWagerResult.balance (replayOf_eq t)).symm⟩
  foreign := fun row hrow id hid hnone roles headers providerId hdeclares hne => by
    have hvalid := h.sound.inv.wagers row hrow
    by_cases hrole : AppRole.api ∈ roles
    · have hlookup : w.shared.db.wagerById (uuidText row.id) = some row :=
        (h.sound.inv.mem_wagerById _ _).mpr ⟨hrow, (isCanonicalUuid_iff.mp hvalid.uuid).2.symm⟩
      unfold getTransaction
      rw [h.sound.inv.readTransaction_eq hrole hvalid.canonical hdeclares,
        h.sound.inv.readTransaction_eq hrole hid hdeclares, hlookup, hnone]
      exact congrArg _ (if_neg (Ne.symm hne))
    · unfold getTransaction readTransaction
      simp only [canActivate, if_neg hrole]
      rfl
  blind := fun w' h' roles headers hagree id =>
    getTransaction_same h.sound.inv h'.sound.inv hagree
  blindByProvider := fun w' h' roles headers pathProvider pathExternal hagree =>
    getTransactionByProvider_same h.sound.inv h'.sound.inv hagree

end Reads

theorem sample_readsBack : @ReadsBack samplePlatform sampleDriver sampleService :=
  @Reachable.readsBack samplePlatform sampleDriver sampleService sample_reachable

end Wagering
