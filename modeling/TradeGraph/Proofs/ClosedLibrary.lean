import TradeGraph.Proofs.Closed

/-!
# Closed helper functions

The functions that emitted programs bring along refer to inputs that every program has, and to each
other.
-/

namespace TradeGraph

open Mql Mql.Platform

variable {σ : Scope}

variable {names : AtrNames}

/-! ## Functions -/

theorem Mql.Function.closed_iff {f : Function} :
    f.Closed σ ↔ (∀ t ∈ f.title, OneLine t) ∧ σ.HasWord f.result ∧ σ.Calls f.name ∧
      (∀ p ∈ f.params, σ.HasWord p.type ∧ σ.Has p.name ∧ ∀ v ∈ p.value, ∃ b, v = .lit (.flag b)) ∧
      Stmt.AllClosed σ f.body :=
  ⟨fun h => ⟨h.title, h.result, h.name, h.params, h.body⟩,
    fun ⟨htitle, hresult, hname, hparams, hbody⟩ => ⟨htitle, hresult, hname, hparams, hbody⟩⟩

namespace Library

/-! ## Loops -/

/-- The inputs that every program has. -/
structure General (σ : Scope) : Prop where
  magic : σ.HasInput "InpMagicNumber"
  comment : σ.HasInput "InpTradeComment"

theorem General.loose (h : General σ) : General σ.loose := ⟨h.magic, h.comment⟩

@[simp] theorem closed_downFrom {count : Expr} : (downFrom count).Closed σ ↔ count.Closed σ := by
  simp +decide [downFrom]

@[simp] theorem closed_positionLoop : positionLoop.Closed σ := by
  simp +decide [positionLoop]

@[simp] theorem closed_positionTicket : positionTicket.Closed σ := by
  simp +decide [positionTicket]

theorem ownPosition_closed (h : General σ) : Stmt.AllClosed σ ownPosition := by
  simp +decide [ownPosition, magic, h.magic]

@[simp] theorem isDeclaration_eachOwnPosition {body : List Stmt} :
    (eachOwnPosition body).isDeclaration = false := (rfl)

theorem closed_eachOwnPosition (h : General σ) {body : List Stmt} :
    (eachOwnPosition body).Closed σ ↔ Stmt.AllClosed σ body := by
  simp +decide [eachOwnPosition, ownPosition_closed h]

/-! ## Counting and comparing -/

theorem countPositions_closed (h : General σ) (hname : σ.HasFunction "CountPositions") :
    countPositions.Closed σ.loose := by
  simp +decide [Function.closed_iff, countPositions, counting,
    closed_eachOwnPosition h.loose, hname]

theorem countByType_closed (h : General σ) (hname : σ.HasFunction "CountPositionsByType") :
    countByType.Closed σ.loose := by
  simp +decide [Function.closed_iff, countByType, counting, closed_eachOwnPosition h.loose, hname]

theorem comparisons_closed (h : ∀ f ∈ comparisons, σ.HasFunction f.name) :
    ∀ f ∈ comparisons, f.Closed σ.loose := by
  simp only [comparisons, List.mem_cons, List.not_mem_nil, or_false, forall_eq_or_imp,
    forall_eq, comparison] at h
  simp +decide [comparisons, Function.closed_iff, comparison, tolerance, h]

theorem standard_closed (h : General σ) (hnames : ∀ f ∈ standardFunctions, σ.HasFunction f.name) :
    ∀ f ∈ standardFunctions, f.Closed σ.loose := by
  intro f hf
  rcases List.mem_cons.mp hf with rfl | hf
  · exact countPositions_closed h (hnames countPositions List.mem_cons_self)
  · exact comparisons_closed (fun g hg => hnames g (List.mem_cons_of_mem _ hg)) f hf

/-! ## Sizing -/

theorem normalizeLot_closed (hname : σ.HasFunction "NormalizeLot") :
    normalizeLot.Closed σ.loose := by
  simp +decide [Function.closed_iff, normalizeLot, hname]

theorem lotSize_closed (hname : σ.HasFunction "CalculateLotSize")
    (hnormalize : σ.HasFunction "NormalizeLot") : lotSize.Closed σ.loose := by
  simp +decide [Function.closed_iff, lotSize, hname, hnormalize]

/-! ## Closing and deleting -/

theorem deletePending_closed (h : General σ) (hname : σ.HasFunction "DeletePendingOrders") :
    deletePending.Closed σ.loose := by
  simp +decide [Function.closed_iff, deletePending, hname, magic, h.magic]

theorem closePositions_closed (h : General σ) (side : Side)
    (hname : σ.HasFunction (closePositions side.label).name) :
    (closePositions side.label).Closed σ.loose := by
  cases side <;>
    simpa +decide [Function.closed_iff, closePositions, closed_eachOwnPosition h.loose, Side.label]
      using hname

/-! ## Orders -/

@[simp] theorem closed_fillPrice {label : String} : (fillPrice label).Closed σ := by
  cases h : isBuy label <;> simp [fillPrice, h]

@[simp] theorem closed_away {above : Bool} {price distance : Expr} :
    (away above price distance).Closed σ ↔ price.Closed σ ∧ distance.Closed σ := by
  cases above <;> simp [away]

@[simp] theorem closed_protection {label : String} {price : Expr} :
    Stmt.AllClosed σ (protection label price) ↔ price.Closed σ := by
  simp +decide [protection, levelAt]

theorem openOrder_closed (h : General σ) {side : Side} (htrades : σ.Trades side)
    (options : Options) (hname : σ.HasFunction (openOrder side.label options).name) :
    (openOrder side.label options).Closed σ.loose := by
  cases side <;>
    simp only [Scope.Trades, Side.words, buyWords, sellWords, List.forall_mem_cons] at htrades <;>
    simpa +decide [Function.closed_iff, openOrder, orderParams, Side.label, h.comment, htrades]
      using hname

theorem pendingExpiry_closed (hname : σ.HasFunction "GetPendingExpiry")
    (hours : σ.HasInput "InpPendingExpiryHours") : pendingExpiry.Closed σ.loose := by
  simp +decide [Function.closed_iff, pendingExpiry, hname, hours]

theorem pendingOrder_closed (h : General σ) {side : Side} (htrades : σ.Trades side) (isStop : Bool)
    (hname : σ.HasFunction (pendingOrder side.label isStop).name)
    (hexpiry : σ.HasFunction "GetPendingExpiry") :
    (pendingOrder side.label isStop).Closed σ.loose := by
  cases side <;>
    simp only [Scope.Trades, Side.words, buyWords, sellWords, List.forall_mem_cons] at htrades <;>
    cases isStop <;>
    simpa +decide [Function.closed_iff, pendingOrder, orderParams, Side.label, pendingLabel,
      h.comment, hexpiry, htrades] using hname

end Library

/-! ## Volatility handles -/

theorem AtrNames.setup_closed {timeframe period : Expr} {what : String}
    (hhandle : σ.Has names.handle) (hbuffer : σ.Has names.buffer)
    (htimeframe : timeframe.Closed σ) (hperiod : period.Closed σ) :
    (names.setup timeframe period what).ClosedIn σ := by
  have hle := σ.le_loose
  simp +decide [Program.closedIn_iff, AtrNames.setup, hhandle.mono hle, hbuffer.mono hle, hhandle.1,
    hbuffer.1, htimeframe.mono hle, hperiod.mono hle]

theorem AtrNames.closed_points (hbuffer : σ.Has names.buffer)
    (hread : σ.MayRead names.buffer.text 0) {factor : Expr} :
    (names.points factor).Closed σ ↔ factor.Closed σ := by
  simp [AtrNames.points, hbuffer, hread]

theorem closed_copyBuffer {handle target : Ident} (hhandle : σ.Has handle) (htarget : σ.Has target)
    (buffer count : Nat) : (copyBuffer handle buffer count target).Closed σ := by
  simp +decide [copyBuffer, hhandle, htarget]

theorem AtrNames.closed_refresh (hhandle : σ.Has names.handle) (hbuffer : σ.Has names.buffer)
    {flag : Ident} : (names.refresh flag).Closed σ ↔ σ.Has flag := by
  simp +decide [AtrNames.refresh, closed_copyBuffer hhandle hbuffer]

end TradeGraph
