import Graft.Main
import Graft.Proofs.ClassFrame
import Graft.Proofs.Combined
import Graft.Proofs.CommandLine
import Graft.Proofs.Indentation
import Graft.Proofs.Independent
import Graft.Proofs.Item.Fault
import Graft.Proofs.Item.Indifference
import Graft.Proofs.Item.Landing
import Graft.Proofs.Item.Literals
import Graft.Proofs.Item.Parameters
import Graft.Proofs.Item.Search
import Graft.Proofs.Item.Signature
import Graft.Proofs.Portions
import Graft.Proofs.Refused
import Graft.Proofs.Reply.Fenced
import Graft.Proofs.Reply.Normal
import Graft.Proofs.Reply.Prose
import Graft.Proofs.Script.Groups
import Graft.Proofs.Script.Untouched
import Graft.Proofs.Slots
import Graft.Proofs.Style.Keys
import Graft.Proofs.Substituted
import Graft.Proofs.Suite.Privacy
