import Worksheet.Proofs.Sheet.Edit

/-!
# The loop that an entry would close

An entry that would close a cycle is refused with a loop. In general the search for an update order
reports the first loop that it meets, and its start need not be on it. Here it is: before the entry
there was no cycle, so every loop goes through the cell that was to be filled.

* `Rewired.mem_path`: each cycle of the new dependencies has the edited name on it.
* `refused_loop_goes_through_the_cell`: the loop begins and ends with the name of the cell, and
  each of its names is read by the next.
-/

namespace Worksheet

open Dependencies (LeadsToCycle)

/-- The path is a simple loop from `name` back to it, and each name of it is read by the next. -/
structure LoopThrough (contents : String → Option Contents) (name : String) (path : List String) :
    Prop where
  closed : ∃ rest, path = name :: rest ++ [name] ∧ (name :: rest).Nodup
  reads : path.IsChain fun x y => Reads contents y x

namespace Sheet

variable {s : Sheet} {name : String} {k : Contents} {d : Dependencies} {c : Cycle}

/-- **Every cycle goes through the edited name**: the other names read what they read before. -/
theorem Rewired.mem_path (hd : s.Rewired name k d) (h : s.Consistent)
    (hc : LeadsToCycle d name c) : name ∈ c.path := by
  by_contra hname
  obtain ⟨x, rest, hpath, -⟩ := hc.closed
  have hchain : c.path.IsChain s.dependencies.Edge := by
    refine hc.chain.imp_of_mem_imp fun a b _ hb hedge => ?_
    have hne : b ≠ name := fun he => hname (he ▸ hb)
    rwa [hd.edge_iff, if_neg hne] at hedge
  rw [hpath] at hchain
  exact h.acyclic x (Dependencies.transGen_of_isChain hchain)

/-- The cycle that refuses contents is a loop through their name. -/
theorem Rewired.loopThrough (hd : s.Rewired name k d) (h : s.Consistent)
    (hc : d.updateOrder name = .error c) :
    LoopThrough (s.contentsAfter name k) name c.path := by
  obtain ⟨hcycle, hhead⟩ := Dependencies.updateOrder_eq_error hd.wellFormed hc
  have hstart := hhead (hd.mem_path h hcycle)
  obtain ⟨x, rest, hpath, hnodup⟩ := hcycle.closed
  obtain rfl : x = name := by
    rw [hpath] at hstart
    exact Option.some.inj hstart
  refine ⟨⟨rest, hpath, hnodup⟩, ?_⟩
  have hchain := hcycle.chain
  rwa [hd.edge_eq h] at hchain

/-! ## Entries -/

/-- **A refused loop goes through the cell** that was to be filled. It begins and ends with that
cell's name, has no other name twice, and each of its names is read by the next, where the cell
itself has the refused formula and all others have the formulas that they have. -/
theorem refused_loop_goes_through_the_cell (h : s.Reachable) {entry : Entry} {cell : String}
    {cycle : Cycle} (he : (s.enter entry).result = .error (.closesCycle cell cycle)) :
    (∃ raw, entry.name? = some raw ∧ s.resolve raw = .ok cell) ∧
      ∃ f, s.contentsOf entry = .ok (.formula f) ∧
        LoopThrough (Function.update s.cells.contents cell (some (.formula f))) cell
          cycle.path := by
  cases hreq : s.requested entry with
  | error e =>
    rw [enter_of_error hreq] at he
    obtain rfl := Except.error.inj he
    simpa using requested_eq_error hreq
  | ok request =>
    obtain ⟨name, k⟩ := request
    obtain ⟨hname, hk⟩ := requested_admitted hreq
    obtain ⟨d, hd, ⟨c, hc, hput⟩ | ⟨order, -, hput⟩⟩ := h.consistent.put_cases hname hk
    · rw [enter_of_ok hreq, hput] at he
      obtain ⟨rfl, rfl⟩ := Refusal.closesCycle.inj (Except.error.inj he)
      obtain ⟨f, rfl, -⟩ := (hd.closes_iff h.consistent).mp ⟨c, hc⟩
      obtain ⟨hraw, hcontents⟩ := requested_eq_ok_iff.mp hreq
      exact ⟨hraw, f, hcontents, hd.loopThrough h.consistent hc⟩
    · rw [enter_of_ok hreq, hput] at he
      contradiction

/-- Of the two variables of the refused formula only `b` closes a loop. -/
theorem demo_refuses_loop_through_a :
    demo.Reachable ∧ (demo.enter (.input "a" "=d+b")).result =
        .error (.closesCycle "a" ⟨["a", "b", "a"]⟩) ∧
      ∃ f, demo.contentsOf (.input "a" "=d+b") = .ok (.formula f) ∧
        LoopThrough (Function.update demo.cells.contents "a" (some (.formula f))) "a"
          ["a", "b", "a"] := by
  have hrefused : (demo.enter (.input "a" "=d+b")).result =
      .error (.closesCycle "a" ⟨["a", "b", "a"]⟩) := by decide +kernel
  obtain ⟨-, hloop⟩ := refused_loop_goes_through_the_cell reachable_demo hrefused
  exact ⟨reachable_demo, hrefused, hloop⟩

end Sheet

end Worksheet
