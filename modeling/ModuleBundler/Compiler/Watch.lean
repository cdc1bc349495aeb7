import ModuleBundler.Compiler.Basic

/-! Building again whenever files change. -/
namespace ModuleBundler

namespace Compiler

/-- Takes what was reported to the watcher. -/
def collect (c : Compiler) : Compiler × List Path :=
  match c.backend with
  | none => (c, [])
  | some b =>
    let (watcher, changed) := b.watcher.collect
    ({ c with backend := some { b with watcher } }, changed)

/-- Lets batches of changes happen, and runs a pass after each of which something was reported. -/
def follow (c : Compiler) (callback : Callback) (t : FileTree) (index : Nat) :
    List (List Change) → Outcome
  | [] => ⟨c, t, [], none⟩
  | batch :: batches =>
    let (c, t, events) := c.undergo t batch
    let seen := t.sights (.batch index :: events)
    let (c, changed) := c.collect
    if changed.isEmpty then
      let rest := c.follow callback t (index + 1) batches
      { rest with seen := seen ++ rest.seen }
    else
      let o := c.pass callback t changed
      match o.failure with
      | some _ => { o with seen := seen ++ o.seen }
      | none =>
        let rest := o.compiler.follow callback o.tree (index + 1) batches
        { rest with seen := seen ++ o.seen ++ rest.seen }

/-- Runs, and goes on as long as batches of changes come. -/
def watch (c : Compiler) (callback : Callback) (t : FileTree) (batches : List (List Change)) :
    Outcome :=
  let o := c.run callback t
  match o.failure with
  | some _ => o
  | none =>
    let rest := o.compiler.follow callback o.tree 0 batches
    { rest with seen := o.seen ++ rest.seen }

end Compiler
end ModuleBundler
