import GatedCalls.Bench.Sitting
import GatedCalls.Main
import GatedCalls.Proofs.Console.Account
import GatedCalls.Proofs.Loading.Prefix
import GatedCalls.Proofs.Dispatch.Isolation
import GatedCalls.Proofs.Dispatch.Remote
import GatedCalls.Proofs.Dispatch.Return
import GatedCalls.Proofs.Dispatch.Serial
import GatedCalls.Proofs.Dispatch.Custody
import GatedCalls.Proofs.Dispatch.Routing
import GatedCalls.Proofs.Dispatch.Passage
import GatedCalls.Proofs.Console.Screen
import GatedCalls.Proofs.Console.Closing
import GatedCalls.Proofs.Prompt.Colour
import GatedCalls.Proofs.Policy
import GatedCalls.Proofs.Approval
import GatedCalls.Proofs.Response
import GatedCalls.Proofs.Registry
import GatedCalls.Proofs.Loading.Agreement
import GatedCalls.Proofs.Loading.Slices
import GatedCalls.Proofs.Loading.Filling
import GatedCalls.Proofs.Loading.Outcome
import GatedCalls.Proofs.Dispatch.Listing
import GatedCalls.Proofs.Dispatch.Hooks
import GatedCalls.Proofs.Console.Notice
import GatedCalls.Proofs.Console.Reading
import GatedCalls.Proofs.Shell.Session
import GatedCalls.Proofs.Shell.Grammar
import GatedCalls.Proofs.Catalog.Batch
import GatedCalls.Proofs.Catalog.Groups
import GatedCalls.Proofs.Server.Result
import GatedCalls.Proofs.Server.Overlap
import GatedCalls.Proofs.Server.Lifecycle
