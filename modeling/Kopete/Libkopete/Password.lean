import Kopete.Lib.Run
import Kopete.Libkopete.ContactList

/-!
# libkopete — `Password`

A password is in the wallet or, where that cannot be written, in the configuration. Setting,
clearing and getting it are requests that wait for the wallet, each for itself; a request
may find it open, not there, or refusing what is written. Whoever gets a password that is in
the configuration also asks for it to be moved to the wallet.

What is in the wallet cannot be had, and not be taken away, without the wallet; and what is
to be moved may be outdated when its turn comes.

Main results:

* `Stored.process` — each request leaves the last password that was set where it is found;
* `found_of_settled` — what is got, over all runs.
-/

namespace Kopete

/-- What a request finds when its turn comes. -/
structure WalletAnswer where
  /-- The wallet that was received, if any: whether it can be written. -/
  wallet : Option Bool
  /-- `KWallet::Wallet::isEnabled`. -/
  isEnabled : Bool
  /-- The user wants the password in the configuration rather than nowhere. -/
  storeUnsafe : Bool
deriving DecidableEq, Repr

/-- A request that is not finished. -/
inductive PasswordRequest where
  /-- `KopetePasswordGetRequestNoPrompt`. -/
  | get
  /-- `KopetePasswordSetRequest`, of the user, or to move the password to the wallet. -/
  | set (newPass : Option (List UInt16)) (byUser : Bool)
  /-- The same one, with the warning that the wallet failed. -/
  | warning (newPass : Option (List UInt16)) (byUser : Bool)
  /-- `KopetePasswordClearRequest`. -/
  | clear
deriving DecidableEq, Repr

/-- What was done last, of what the user asked for. -/
inductive Completed where
  | nothing
  | set (pass : Option (List UInt16))
  | clear
deriving DecidableEq, Repr

/-- `Password::Private`, which copies share, with the entry in the wallet and the requests. A
text that is null is `none`. -/
structure Password where
  remembered : Bool
  passwordFromKConfig : Option QString
  isWrong : Bool
  allowBlankPassword : Bool
  cachedValue : Option QString
  walletEntry : Option QString
  requests : List PasswordRequest
  /-- What `requestFinished` was emitted with. -/
  emitted : List (Option QString)
  completed : Completed
deriving DecidableEq, Repr

namespace Password

variable (d : Password)

/-! ## Calls -/

def begin (r : PasswordRequest) : Password := { d with requests := d.requests ++ [r] }

/-- `Password::requestWithoutPrompt`. -/
def requestWithoutPrompt : Password := d.begin .get

/-- `Password::clear`. -/
def clear : Password := d.begin .clear

/-- `Password::set`. -/
def set (pass : Option QString) (byUser : Bool) : Password :=
  if pass = none ∧ d.allowBlankPassword = false then
    if d.remembered then d.clear else d
  else d.begin (.set pass byUser)

/-- `Password::setWrong`. -/
def setWrong (bWrong : Bool) : Password :=
  { d with isWrong := bWrong, cachedValue := if bWrong then none else d.cachedValue }

/-! ## Requests -/

/-- The password in the wallet, if it is there and not empty. -/
def readPassword (a : WalletAnswer) : Option QString :=
  if a.wallet = none then none else d.walletEntry.filter fun pwd => pwd ≠ []

/-- `KopetePasswordGetRequest::grabPassword`. -/
def grabPassword (a : WalletAnswer) : Option QString × Password :=
  if d.remembered = true ∧ d.passwordFromKConfig ≠ none then
    (d.passwordFromKConfig, d.set d.passwordFromKConfig false)
  else
    match d.readPassword a with
    | some pwd => (some pwd, d)
    | none =>
      if d.remembered = true ∧ d.passwordFromKConfig.getD [] ≠ [] then (d.passwordFromKConfig, d)
      else (none, d)

/-- `KopetePasswordGetRequest::finished`. -/
def finished (result : Option QString) : Password :=
  { d with cachedValue := result, emitted := d.emitted ++ [result] }

/-- What `KopetePasswordSetRequest::processRequest` does after `setPassword` has succeeded. -/
def passwordSet (newPass : Option QString) (byUser : Bool) : Password :=
  { d.setWrong false with
    cachedValue := newPass
    completed := if byUser then .set newPass else d.completed }

/-- `KopetePasswordSetRequest::setPassword` into the wallet. -/
def writeWallet (newPass : Option QString) : Password :=
  { d with walletEntry := some (newPass.getD []), remembered := true, passwordFromKConfig := none }

/-- `KopetePasswordSetRequest::setPassword` into the configuration. -/
def writeKConfig (newPass : Option QString) : Password :=
  { d with remembered := true, passwordFromKConfig := newPass }

/-- `KopetePasswordClearRequest::clearPassword`, and what `processRequest` does after it. -/
def clearPassword (a : WalletAnswer) : Password :=
  { { d with
      remembered := false
      passwordFromKConfig := none
      walletEntry := if a.wallet = some true then none else d.walletEntry }.setWrong true with
    cachedValue := none
    completed := .clear }

/-- `processRequest` of a request. The warning of a set request opens an event loop of its own. -/
def processRequest (a : WalletAnswer) : PasswordRequest → Password
  | .get =>
    let (result, d) := d.grabPassword a
    d.finished result
  | .set newPass byUser =>
    if a.wallet = some true then (d.writeWallet newPass).passwordSet newPass byUser
    else if a.isEnabled then d.begin (.warning newPass byUser)
    else (d.writeKConfig newPass).passwordSet newPass byUser
  | .warning newPass byUser =>
    if a.storeUnsafe then (d.writeKConfig newPass).passwordSet newPass byUser else d
  | .clear => d.clearPassword a

/-- What happens to a password. -/
inductive Event where
  | set (pass : Option QString)
  | clear
  | requestWithoutPrompt
  /-- The turn of one of the requests comes, or its warning is answered. -/
  | process (i : Nat) (a : WalletAnswer)
deriving DecidableEq, Repr

def step : Event → Password
  | .set pass => d.set pass true
  | .clear => d.clear
  | .requestWithoutPrompt => d.requestWithoutPrompt
  | .process i a =>
    match d.requests[i]? with
    | none => d
    | some r => { d with requests := d.requests.eraseIdx i }.processRequest a r

/-- A password that was read from the configuration, and what the wallet has. -/
def start (allowBlankPassword remembered isWrong : Bool) (passwordFromKConfig : Option QString)
    (walletEntry : Option QString) : Password :=
  ⟨remembered, passwordFromKConfig, isWrong, allowBlankPassword, none, walletEntry, [], [],
    .nothing⟩

variable {d}

theorem step_process {i : Nat} {r : PasswordRequest} (h : d.requests[i]? = some r)
    (a : WalletAnswer) : d.step (.process i a) =
      { d with requests := d.requests.eraseIdx i }.processRequest a r := by
  simp only [step, h]

/-! ## Where the password is -/

/-- The last password that was set is in the configuration, or in the wallet; after it was
cleared there is none. -/
def Stored (d : Password) : Prop :=
  match d.completed with
  | .nothing => True
  | .set pass =>
    d.remembered = true ∧ ((d.passwordFromKConfig ≠ none ∧ d.passwordFromKConfig = pass) ∨
      (d.passwordFromKConfig = none ∧ d.walletEntry.getD [] = pass.getD []))
  | .clear => d.passwordFromKConfig = none ∧ d.walletEntry.getD [] = []

/-- The turn of a request: a password is only moved if it is the last one that was set, one
that is null is written to the wallet, and the wallet is there to clear the password, unless
there is none in it. -/
def SettledRequest (d : Password) (a : WalletAnswer) : PasswordRequest → Prop
  | .get => True
  | .set newPass byUser =>
    (byUser = false → d.completed = .nothing ∨ d.completed = .set newPass) ∧
      (newPass = none → a.wallet = some true ∨ d.walletEntry.getD [] = [])
  | .warning newPass byUser =>
    (byUser = false → d.completed = .nothing ∨ d.completed = .set newPass) ∧
      (newPass = none → d.walletEntry.getD [] = [])
  | .clear => a.wallet = some true ∨ d.walletEntry.getD [] = []

def Settled (d : Password) : Event → Prop
  | .process i a => ∀ r, d.requests[i]? = some r → d.SettledRequest a r
  | _ => True

theorem Stored.congr (h : Stored d) {d' : Password} (hCompleted : d'.completed = d.completed)
    (hRemembered : d'.remembered = d.remembered)
    (hKConfig : d'.passwordFromKConfig = d.passwordFromKConfig)
    (hEntry : d'.walletEntry = d.walletEntry) : Stored d' := by
  unfold Stored at h ⊢
  rw [hCompleted, hRemembered, hKConfig, hEntry]
  exact h

theorem Stored.set (h : Stored d) (pass : Option QString) (byUser : Bool) :
    Stored (d.set pass byUser) := by
  unfold Password.set
  split
  · split
    · exact h.congr rfl rfl rfl rfl
    · exact h
  · exact h.congr rfl rfl rfl rfl

/-- Into the wallet. -/
theorem stored_writeWallet {newPass : Option QString} {byUser : Bool}
    (hCurrent : byUser = false → d.completed = .nothing ∨ d.completed = .set newPass) :
    Stored ((d.writeWallet newPass).passwordSet newPass byUser) := by
  have hDone : ∀ c : Completed, c = .nothing ∨ c = .set newPass →
      Stored { (d.writeWallet newPass).passwordSet newPass byUser with completed := c } := by
    rintro c (rfl | rfl)
    · trivial
    · exact ⟨rfl, Or.inr ⟨rfl, rfl⟩⟩
  cases byUser with
  | true => exact hDone (.set newPass) (Or.inr rfl)
  | false => exact hDone d.completed (hCurrent rfl)

/-- Into the configuration. -/
theorem stored_writeKConfig {newPass : Option QString} {byUser : Bool}
    (hCurrent : byUser = false → d.completed = .nothing ∨ d.completed = .set newPass)
    (hNull : newPass = none → d.walletEntry.getD [] = []) :
    Stored ((d.writeKConfig newPass).passwordSet newPass byUser) := by
  have hDone : ∀ c : Completed, c = .nothing ∨ c = .set newPass →
      Stored { (d.writeKConfig newPass).passwordSet newPass byUser with completed := c } := by
    rintro c (rfl | rfl)
    · trivial
    · refine ⟨rfl, ?_⟩
      cases newPass with
      | none => exact Or.inr ⟨rfl, hNull rfl⟩
      | some text => exact Or.inl ⟨Option.some_ne_none text, rfl⟩
  cases byUser with
  | true => exact hDone (.set newPass) (Or.inr rfl)
  | false => exact hDone d.completed (hCurrent rfl)

theorem Stored.clearPassword {a : WalletAnswer}
    (hGone : a.wallet = some true ∨ d.walletEntry.getD [] = []) : Stored (d.clearPassword a) := by
  refine ⟨rfl, ?_⟩
  show (if a.wallet = some true then none else d.walletEntry).getD [] = []
  split
  · rfl
  · next hReadOnly => exact hGone.resolve_left hReadOnly

theorem grabPassword_stored (h : Stored d) (a : WalletAnswer) : Stored (d.grabPassword a).2 := by
  unfold grabPassword
  split
  · exact h.set _ _
  · split
    · exact h
    · split <;> exact h

/-- **The turn of a request.** -/
theorem Stored.process (h : Stored d) {a : WalletAnswer} {r : PasswordRequest}
    (hSettled : d.SettledRequest a r) : Stored (d.processRequest a r) := by
  cases r with
  | get => exact (grabPassword_stored h a).congr rfl rfl rfl rfl
  | set newPass byUser =>
    obtain ⟨hCurrent, hNull⟩ := hSettled
    simp only [processRequest]
    split
    · exact stored_writeWallet hCurrent
    · next hReadOnly =>
      split
      · exact h.congr rfl rfl rfl rfl
      · exact stored_writeKConfig hCurrent fun hNone => (hNull hNone).resolve_left hReadOnly
  | warning newPass byUser =>
    obtain ⟨hCurrent, hNull⟩ := hSettled
    simp only [processRequest]
    split
    · exact stored_writeKConfig hCurrent hNull
    · exact h
  | clear => exact Stored.clearPassword hSettled

/-! ## What is found -/

/-- The result is what was set last, or null if it was cleared. -/
def Yields (result : Option QString) : Completed → Prop
  | .nothing => True
  | .set pass => result.getD [] = pass.getD []
  | .clear => result = none

/-- Every request yields that. -/
def Faithful (d : Password) (e : Event) : Prop :=
  ∀ i a, e = .process i a → d.requests[i]? = some .get →
    ∃ result, (d.step e).emitted = d.emitted ++ [result] ∧ Yields result d.completed

/-- A request yields that where the password can be had: from the wallet, or from the
configuration. Elsewhere it yields null. -/
def Found (d : Password) (e : Event) : Prop :=
  ∀ i a, e = .process i a → d.requests[i]? = some .get →
    ∃ result, (d.step e).emitted = d.emitted ++ [result] ∧
      (a.wallet ≠ none ∨ d.passwordFromKConfig ≠ none → Yields result d.completed) ∧
      (a.wallet = none → d.passwordFromKConfig = none → result = none)

theorem readPassword_getD {a : WalletAnswer} (h : a.wallet ≠ none) :
    (d.readPassword a).getD [] = d.walletEntry.getD [] := by
  unfold readPassword
  rw [if_neg h]
  cases d.walletEntry with
  | none => rfl
  | some pwd =>
    by_cases hEmpty : pwd = [] <;> simp [Option.filter, hEmpty]

theorem readPassword_eq_none {a : WalletAnswer} (h : a.wallet = none ∨ d.walletEntry.getD [] = []) :
    d.readPassword a = none := by
  unfold readPassword
  split
  · rfl
  · next hThere =>
    have hEmpty := h.resolve_left hThere
    cases hEntry : d.walletEntry with
    | none => rfl
    | some pwd =>
      rw [hEntry] at hEmpty
      simpa using hEmpty

/-- Where the configuration has nothing, it is up to the wallet. -/
theorem grabPassword_wallet (h : d.passwordFromKConfig = none) (a : WalletAnswer) :
    (d.grabPassword a).1 = d.readPassword a := by
  unfold grabPassword
  rw [if_neg (fun hBoth => hBoth.2 h)]
  cases hRead : d.readPassword a with
  | some pwd => rfl
  | none => simp [h]

theorem grabPassword_emitted (a : WalletAnswer) : (d.grabPassword a).2.emitted = d.emitted := by
  unfold grabPassword
  split
  · unfold Password.set
    split
    · split <;> rfl
    · rfl
  · split
    · rfl
    · split <;> rfl

theorem processRequest_get (a : WalletAnswer) :
    (d.processRequest a .get).emitted = d.emitted ++ [(d.grabPassword a).1] := by
  show (d.grabPassword a).2.emitted ++ [(d.grabPassword a).1] = _
  rw [grabPassword_emitted]

/-- **What a request finds.** -/
theorem Stored.grabPassword (h : Stored d) (a : WalletAnswer) :
    (a.wallet ≠ none ∨ d.passwordFromKConfig ≠ none →
      Yields (d.grabPassword a).1 d.completed) ∧
    (a.wallet = none → d.passwordFromKConfig = none → (d.grabPassword a).1 = none) := by
  refine ⟨?_, ?_⟩
  · intro hThere
    unfold Stored at h
    cases hCompleted : d.completed with
    | nothing => trivial
    | set pass =>
      simp only [hCompleted] at h
      obtain ⟨hRemembered, ⟨hSome, rfl⟩ | ⟨hNone, hEntry⟩⟩ := h
      · unfold Password.grabPassword
        rw [if_pos ⟨hRemembered, hSome⟩]
        exact rfl
      · show ((d.grabPassword a).1).getD [] = pass.getD []
        rw [grabPassword_wallet hNone, readPassword_getD (hThere.resolve_right (not_not.2 hNone))]
        exact hEntry
    | clear =>
      simp only [hCompleted] at h
      show (d.grabPassword a).1 = none
      rw [grabPassword_wallet h.1, readPassword_eq_none (Or.inr h.2)]
  · intro hNone hKConfig
    rw [grabPassword_wallet hKConfig, readPassword_eq_none (Or.inl hNone)]

theorem Stored.found (h : Stored d) (e : Event) : Found d e := by
  rintro i a rfl hGet
  have hRest : Stored { d with requests := d.requests.eraseIdx i } := h.congr rfl rfl rfl rfl
  obtain ⟨hYields, hNull⟩ := hRest.grabPassword a
  refine ⟨_, ?_, hYields, hNull⟩
  rw [step_process hGet, processRequest_get]

theorem Stored.step (h : Stored d) {e : Event} (hSettled : d.Settled e) : Stored (d.step e) := by
  cases e with
  | set pass => exact h.set pass true
  | clear => exact h.congr rfl rfl rfl rfl
  | requestWithoutPrompt => exact h.congr rfl rfl rfl rfl
  | process i a =>
    cases hr : d.requests[i]? with
    | none =>
      simp only [Password.step, hr]
      exact h
    | some r =>
      rw [step_process hr]
      have hRest : Stored { d with requests := d.requests.eraseIdx i } := h.congr rfl rfl rfl rfl
      have hTurn := hSettled r hr
      refine hRest.process ?_
      cases r <;> exact hTurn

/-- **Passwords.** Whatever the wallet is like when the turn of a request comes, what was set
last is found where it can be had, and nothing is found after it was cleared, in every run of
settled steps. -/
theorem found_of_settled (allowBlankPassword remembered isWrong : Bool)
    (passwordFromKConfig walletEntry : Option QString) (es : List Event)
    (hSettled : Run.StepsMeet step Settled
      (start allowBlankPassword remembered isWrong passwordFromKConfig walletEntry) es) :
    Run.StepsMeet step Found
      (start allowBlankPassword remembered isWrong passwordFromKConfig walletEntry) es := by
  refine Run.stepsMeet_of_inv ?_ (show Stored _ from trivial) hSettled
  intro d e (h : Stored d) hStep
  exact ⟨h.found e, h.step hStep⟩

theorem settled_of {i : Nat} {a : WalletAnswer} {r : PasswordRequest}
    (hr : d.requests[i]? = some r) (h : d.SettledRequest a r) : d.Settled (.process i a) := by
  intro r' hr'
  rwa [← Option.some.inj (hr.symm.trans hr')]

/-- The wallet is there, or it is not. -/
def openWallet : WalletAnswer := ⟨some true, true, false⟩
def noWallet : WalletAnswer := ⟨none, true, true⟩

/-- A password is kept in the configuration, moved to the wallet, and cleared. -/
def movedAndCleared : List Event :=
  [.set (some [112]), .process 0 noWallet, .process 0 noWallet, .requestWithoutPrompt,
    .process 0 openWallet, .process 0 openWallet, .requestWithoutPrompt, .process 0 openWallet,
    .clear, .process 0 openWallet, .requestWithoutPrompt, .process 0 openWallet]

theorem found_of_settled_movedAndCleared :
    Run.StepsMeet step Found (start false false false none none) movedAndCleared := by
  refine found_of_settled false false false none none movedAndCleared ?_
  exact ⟨trivial, settled_of rfl ⟨by decide, by decide⟩, settled_of rfl ⟨by decide, by decide⟩,
    trivial, settled_of rfl trivial, settled_of rfl ⟨by decide, by decide⟩, trivial,
    settled_of rfl trivial, trivial, settled_of rfl (Or.inl rfl), trivial, settled_of rfl trivial,
    trivial⟩

/-- A password that is to be moved comes back after it was cleared. -/
example :
    ([.requestWithoutPrompt, .clear, .process 0 openWallet, .process 0 openWallet,
      .process 0 openWallet, .requestWithoutPrompt, .process 0 openWallet].foldl step
        (start false true false (some [112]) none)).emitted = [some [112], some [112]] := by
  decide

/-- A password is set while the wallet is open, and asked for when it is not there. -/
def walletLost : List Event :=
  [.set (some [112]), .process 0 openWallet, .requestWithoutPrompt, .process 0 noWallet]

/-- It is not found. -/
theorem walletLost_null :
    ¬ Run.StepsMeet step Faithful (start false false false none none) walletLost := by
  rintro ⟨-, -, -, hGet, -⟩
  obtain ⟨result, hEmitted, hYields⟩ := hGet 0 noWallet rfl (by decide)
  have hSame : [none] = [result] := hEmitted
  rw [← List.head_eq_of_cons_eq hSame] at hYields
  exact absurd (show ([] : QString) = [112] from hYields) (by decide)

end Password

end Kopete
