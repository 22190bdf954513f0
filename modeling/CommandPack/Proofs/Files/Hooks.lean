import CommandPack.Proofs.Contexts
import CommandPack.Proofs.Files.OwnFiles

namespace CommandPack

namespace Layout

variable (l : Layout) (b : Buffers) (files : WrittenFiles) (t : FileTree)

/-- The function that a hook runs is a context that was built; its file was written and can be
read. -/
structure Leads (context : String) : Prop where
  built : context ∈ b.keys
  reported : l.functionPath context ∈ files.functions
  readable : ∃ text, t.readFile (l.functionPath context) = .ok text

variable {l b files t}

/-- Every context that was built is written to a file that can be read. -/
theorem leads_iff {hooks : Bool} (hfiles : files = l.files hooks b)
    (hfound : (l.plan hooks b).Found t) {context : String} :
    l.Leads b files t context ↔ context ∈ b.keys := by
  refine ⟨Leads.built, fun hbuilt => ⟨hbuilt, ?_, ?_⟩⟩
  · rw [hfiles]
    exact List.mem_map_of_mem hbuilt
  · obtain ⟨e, he, rfl⟩ := List.mem_map.mp hbuilt
    have hwrite : (l.functionPath e.1, Buffers.joinLines e.2) ∈ (l.plan hooks b).writes := by
      rw [writes_plan]
      exact (l.mem_written hooks b).mpr (.inr ⟨e, he, rfl⟩)
    obtain ⟨text, -, hread⟩ := hfound.readFile hwrite
    exact ⟨text, hread⟩

end Layout

namespace Pack

/-- A write with hooks that succeeds has written two hook files. The one for loading runs the
default context, which always leads to a file. The one for ticks runs the tick context; it leads to
a file exactly if that is the default context, if some step of the run names it, or if it declares
the constants and one is used. -/
theorem hooks_lead (p : Pack) (directory : String) (t : FileTree) {files : WrittenFiles}
    (h : (p.write directory true t).2 = .ok files) :
    let l := p.layout directory
    let ms := p.script.moments p.start
    ∃ b, p.build = .ok b ∧ files.hooks = [l.hookPath "load", l.hookPath "tick"] ∧
      [(l.hookPath "load", hookTag p.space p.settings.defaultContext),
        (l.hookPath "tick", hookTag p.space tickContext)] <+: (l.plan true b).writes ∧
      l.Leads b files (p.write directory true t).1 p.settings.defaultContext ∧
      (l.Leads b files (p.write directory true t).1 tickContext ↔
        tickContext = p.settings.defaultContext ∨ tickContext ∈ ms.flatMap Moment.addressed ∨
          (tickContext = p.settings.constsContext ∧ ms.flatMap Moment.uses ≠ [])) := by
  intro l ms
  obtain ⟨b, hb, hfiles, hfound⟩ := found_of_write h
  have hkeys (c : String) : c ∈ b.keys ↔ c = p.settings.defaultContext ∨
      c ∈ ms.flatMap Moment.addressed ∨
        (c = p.settings.constsContext ∧ ms.flatMap Moment.uses ≠ []) := by
    rw [build_eq_ok hb]
    exact p.script.mem_keys_run p.space p.settings c
  refine ⟨b, hb, ?_, ?_, ?_, ?_⟩
  · rw [hfiles]
    rfl
  · rw [Layout.writes_plan]
    exact List.prefix_append _ _
  · rw [Layout.leads_iff hfiles hfound, hkeys]
    exact .inl rfl
  · rw [Layout.leads_iff hfiles hfound, hkeys]

def ticking : Pack where
  space := "demo"
  settings := {}
  script :=
    .inside (.function "game/step" (some "step")) false (.act (.emit "say step") false .done) <|
    .inside (.tick none) false (.act (.call "step") false .done) .done
  accepted := Settings.fault?_demo

theorem hooks_lead_ticking :
    let after := (ticking.write "out" true .empty).1
    ∃ files b, (ticking.write "out" true .empty).2 = .ok files ∧ ticking.build = .ok b ∧
      files.hooks =
        ["out/minecraft/tags/functions/load.json", "out/minecraft/tags/functions/tick.json"] ∧
      (ticking.layout "out").Leads b files after "default" ∧
      (ticking.layout "out").Leads b files after "tick" := by
  intro after
  have hwritten : (ticking.write "out" true .empty).2 = .ok
      ⟨["out/demo/functions/default.mcfunction", "out/demo/functions/game/step.mcfunction",
        "out/demo/functions/tick.mcfunction"],
      ["out/minecraft/tags/functions/load.json", "out/minecraft/tags/functions/tick.json"]⟩ := by
    decide +kernel
  obtain ⟨b, hb, -, -, hload, htick⟩ := ticking.hooks_lead "out" .empty hwritten
  have hnamed : tickContext ∈ (ticking.script.moments ticking.start).flatMap Moment.addressed := by
    decide +kernel
  exact ⟨_, b, hwritten, hb, rfl, hload, htick.mpr (.inr (.inl hnamed))⟩

def still : Pack where
  space := "demo"
  settings := {}
  script := .act (.emit "say hi") false .done
  accepted := Settings.fault?_demo

/-- The hook for ticks is written, but it runs a function that the pack does not have. -/
theorem tick_hook_astray :
    (still.write "data" true .empty).2 = .ok
      ⟨["data/demo/functions/default.mcfunction"],
      ["data/minecraft/tags/functions/load.json", "data/minecraft/tags/functions/tick.json"]⟩ ∧
    (still.write "data" true .empty).1.readFile "data/minecraft/tags/functions/tick.json" =
      .ok "\x7b\"replace\":false,\"values\":[\"demo:tick\"]\x7d" ∧
    (still.write "data" true .empty).1.readFile "data/demo/functions/tick.mcfunction" =
      .error .missing ∧
    still.build.toOption.map (·.keys) = some ["default"] ∧
    ∀ b files, still.build = .ok b →
      ¬ (still.layout "data").Leads b files (still.write "data" true .empty).1 tickContext := by
  -- The write is evaluated once for all that is read off it.
  simp only [← and_assoc]
  refine ⟨by decide +kernel, ?_⟩
  intro b files hb hleads
  have hkeys : still.build.toOption.map (·.keys) = some ["default"] := by decide +kernel
  rw [hb] at hkeys
  have hkeys : b.keys = ["default"] := Option.some.inj hkeys
  have hbuilt := hleads.built
  rw [hkeys] at hbuilt
  exact absurd hbuilt (by decide)

end Pack

end CommandPack
