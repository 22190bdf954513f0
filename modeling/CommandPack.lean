import CommandPack.Inspect
import CommandPack.Main
import CommandPack.Proofs.BarTitles
import CommandPack.Proofs.ConditionText
import CommandPack.Proofs.Edits
import CommandPack.Proofs.EntityTags
import CommandPack.Proofs.Files.Containment
import CommandPack.Proofs.Files.Hooks
import CommandPack.Proofs.Files.WriteAgain
import CommandPack.Proofs.Files.WriteOrder
import CommandPack.Proofs.Game.Loading
import CommandPack.Proofs.Isolation
import CommandPack.Proofs.NameGrammar
import CommandPack.Proofs.PrivateContexts
import CommandPack.Proofs.RenderedText
import CommandPack.Proofs.ScopeCalls
import CommandPack.Proofs.ScopeNesting
import CommandPack.Proofs.ScoreCommands
import CommandPack.Proofs.SelectorText
import CommandPack.Proofs.SingleLines
import CommandPack.Proofs.Truncation
