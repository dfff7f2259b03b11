import TradeGraph.Program.Management
import TradeGraph.Proofs.Frames

/-!
# Stops along a run

What the platform does to positions, as relations between the world before and after. A position
that is open after was open before, with the same side and open price; only one call sets its stop.
-/

namespace TradeGraph.Mql

/-! ## Positions along a run -/

/-- The positions are the same, and no stop was set. Another one may be selected. -/
structure World.Idle (w w' : World) : Prop where
  positions : w'.positions = w.positions
  moves : w'.moves = w.moves

/-- No stop was set, and each open position was open before with the same stop. -/
structure World.Still (w w' : World) : Prop where
  moves : w'.moves = w.moves
  positions : ∀ {t p'}, w'.position? t = some p' → ∃ p, w.position? t = some p ∧
    p.side = p'.side ∧ p.openPrice = p'.openPrice ∧ p.stop = p'.stop

/-- Only stops were set that are fine, and each open position was open before. -/
structure World.Later (F : Move → Prop) (w w' : World) : Prop where
  moves : ∃ new, w'.moves = w.moves ++ new ∧ ∀ m ∈ new, F m
  positions : ∀ {t p'}, w'.position? t = some p' → ∃ p, w.position? t = some p ∧
    p.side = p'.side ∧ p.openPrice = p'.openPrice

section Relations

variable {F : Move → Prop} {a b c : World}

theorem World.Quiet.idle (h : a.Quiet b) : a.Idle b :=
  ⟨h.positions, h.moves⟩

theorem World.Idle.trans (h : a.Idle b) (h' : b.Idle c) : a.Idle c :=
  ⟨h'.positions.trans h.positions, h'.moves.trans h.moves⟩

theorem World.Idle.position?_eq (h : a.Idle b) (t : ℚ) : b.position? t = a.position? t := by
  rw [World.position?, World.position?, h.positions]

theorem World.Idle.still (h : a.Idle b) : a.Still b :=
  ⟨h.moves, fun hp => ⟨_, (h.position?_eq _).symm.trans hp, rfl, rfl, rfl⟩⟩

theorem World.Quiet.still (h : a.Quiet b) : a.Still b :=
  h.idle.still

theorem World.Still.trans (h : a.Still b) (h' : b.Still c) : a.Still c := by
  refine ⟨h'.moves.trans h.moves, fun hp => ?_⟩
  obtain ⟨q, hq, hside, hopen, hstop⟩ := h'.positions hp
  obtain ⟨r, hr, hside', hopen', hstop'⟩ := h.positions hq
  exact ⟨r, hr, hside'.trans hside, hopen'.trans hopen, hstop'.trans hstop⟩

theorem World.Still.later (h : a.Still b) : a.Later F b := by
  refine ⟨⟨[], by rw [h.moves, List.append_nil], by simp⟩, fun hp => ?_⟩
  obtain ⟨q, hq, hside, hopen, -⟩ := h.positions hp
  exact ⟨q, hq, hside, hopen⟩

theorem World.Quiet.later (h : a.Quiet b) : a.Later F b :=
  h.still.later

theorem World.Later.trans (h : a.Later F b) (h' : b.Later F c) : a.Later F c := by
  obtain ⟨⟨new, hnew, hfine⟩, hpositions⟩ := h
  obtain ⟨⟨new', hnew', hfine'⟩, hpositions'⟩ := h'
  refine ⟨⟨new ++ new', by rw [hnew', hnew, List.append_assoc], ?_⟩, fun hp => ?_⟩
  · exact fun m hm => (List.mem_append.mp hm).elim (hfine m) (hfine' m)
  · obtain ⟨q, hq, hside, hopen⟩ := hpositions' hp
    obtain ⟨r, hr, hside', hopen'⟩ := hpositions hq
    exact ⟨r, hr, hside'.trans hside, hopen'.trans hopen⟩

theorem along_idle : Along World.Idle :=
  ⟨World.Quiet.idle, World.Idle.trans⟩

theorem along_still : Along World.Still :=
  ⟨World.Quiet.still, World.Still.trans⟩

theorem along_later (F : Move → Prop) : Along (World.Later F) :=
  ⟨World.Quiet.later, World.Later.trans⟩

end Relations

/-! ## The platform -/

section Platform

variable {market : Market} {w : World}

theorem ask_quiet (market : Market) (q : Query) (w : World) : w.Quiet (w.ask market q).2 :=
  ⟨rfl, rfl, rfl⟩

theorem read_quiet (market : Market) (q : Query) (property : Value) (w : World) :
    w.Quiet (w.read market q property).2 := by
  rw [World.read]
  split
  · exact .refl w
  · exact ask_quiet market q w

theorem select_idle (t : ℚ) (w : World) : w.Idle (w.select t).2 := by
  rw [World.select]
  split <;> exact ⟨rfl, rfl⟩

theorem selectAt_idle (i : ℚ) (w : World) : w.Idle (w.selectAt i).2 := by
  rw [World.selectAt]
  split <;> exact ⟨rfl, rfl⟩

theorem replace_still {t : ℚ} {p : Position} (hp : w.position? t = some p) {new : Option Position}
    (hnew : ∀ q ∈ new, q.ticket = p.ticket ∧ q.side = p.side ∧ q.openPrice = p.openPrice ∧
      q.stop = p.stop) : w.Still (w.replace t new) := by
  have hticket : ∀ q ∈ new, q.ticket = t := fun q hq =>
    (hnew q hq).1.trans (World.ticket_of_position? hp)
  refine ⟨rfl, fun {u} q hq => ?_⟩
  rw [World.position?_replace hp hticket] at hq
  by_cases hu : u = t
  · rw [if_pos hu] at hq
    obtain ⟨-, hside, hopen, hstop⟩ := hnew q hq
    exact ⟨p, hu ▸ hp, hside.symm, hopen.symm, hstop.symm⟩
  · rw [if_neg hu] at hq
    exact ⟨q, hq, rfl, rfl, rfl⟩

theorem closePart_still (t v : ℚ) (w : World) : w.Still (w.closePart t v).2 := by
  rw [World.closePart]
  split
  · rename_i p hp
    refine replace_still hp fun q hq => ?_
    by_cases hv : v < p.volume
    · rw [if_pos hv] at hq
      cases hq
      exact ⟨rfl, rfl, rfl, rfl⟩
    · rw [if_neg hv] at hq
      cases hq
  · exact (World.Quiet.refl w).still

theorem close_still (t : ℚ) (w : World) : w.Still (w.close t).2 := by
  rw [World.close]
  split
  · rename_i p hp
    exact replace_still hp fun q hq => nomatch hq
  · exact (World.Quiet.refl w).still

theorem modify_later {F : Move → Prop} {t stop target : ℚ}
    (h : ∀ p, w.position? t = some p → F ⟨p, stop⟩) : w.Later F (w.modify t stop target).2 := by
  rw [World.modify]
  split
  · rename_i p hp
    refine ⟨⟨[⟨p, stop⟩], rfl, List.forall_mem_singleton.mpr (h p hp)⟩, fun {u} q hq => ?_⟩
    have hticket := World.ticket_of_position? hp
    have hnew : ∀ q ∈ some { p with stop, target }, q.ticket = t := by
      rintro q ⟨⟩
      exact hticket
    have hq : (w.replace t (some { p with stop, target })).position? u = some q := hq
    rw [World.position?_replace hp hnew] at hq
    by_cases hu : u = t
    · rw [if_pos hu] at hq
      cases hq
      exact ⟨p, hu ▸ hp, rfl, rfl⟩
    · rw [if_neg hu] at hq
      exact ⟨q, hq, rfl, rfl⟩
  · exact (World.Quiet.refl w).later

/-- The functions of the platform that select positions. -/
def selectCalls : List String :=
  ["PositionGetTicket", "PositionSelectByTicket"]

/-- The methods that change positions. -/
def tradeMethods : List String :=
  ["PositionModify", "PositionClosePartial", "PositionClose"]

/-- No function that selects, and no method that changes positions. -/
def Callee.LeavesAll : Callee → Prop
  | .function f => f ∉ selectCalls
  | .method _ m => m ∉ tradeMethods

/-- No method that changes positions. -/
def Callee.LeavesPositions : Callee → Prop
  | .function _ => True
  | .method _ m => m ∉ tradeMethods

/-- Not the method that sets stops. -/
def Callee.LeavesStops : Callee → Prop
  | .function _ => True
  | .method _ m => m ≠ "PositionModify"

theorem perform_quiet {q : Query} (hq : q.Among Callee.LeavesAll) (w : World) :
    w.Quiet (perform market q w).2 := by
  unfold perform
  split
  case h_2 | h_3 | h_6 | h_7 | h_8 => exact absurd (by decide) hq
  case h_4 | h_5 => exact read_quiet _ _ _ _
  case h_14 => exact ask_quiet _ _ _
  all_goals exact .refl w

theorem perform_idle {q : Query} (hq : q.Among Callee.LeavesPositions) (w : World) :
    w.Idle (perform market q w).2 := by
  unfold perform
  split
  case h_2 => exact selectAt_idle _ _
  case h_3 => exact select_idle _ _
  case h_4 | h_5 => exact (read_quiet _ _ _ _).idle
  case h_6 | h_7 | h_8 => exact absurd (by decide) hq
  case h_14 => exact (ask_quiet _ _ _).idle
  all_goals exact (World.Quiet.refl w).idle

theorem perform_still {q : Query} (hq : q.Among Callee.LeavesStops) (w : World) :
    w.Still (perform market q w).2 := by
  unfold perform
  split
  case h_2 => exact (selectAt_idle _ _).still
  case h_3 => exact (select_idle _ _).still
  case h_4 | h_5 => exact (read_quiet _ _ _ _).still
  case h_6 => exact absurd rfl hq
  case h_7 => exact closePart_still _ _ _
  case h_8 => exact close_still _ _
  case h_14 => exact (ask_quiet _ _ _).still
  all_goals exact (World.Quiet.refl w).still

end Platform

end TradeGraph.Mql
