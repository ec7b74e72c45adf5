import GatedRelay.Address.Endpoint
import GatedRelay.Frame.Stream
import GatedRelay.Main
import GatedRelay.Pair.Session
import GatedRelay.Relay.Link
import GatedRelay.Relay.Start
import GatedRelay.Tool.RelayCommand
import GatedRelay.Proofs.Text.Utf8
import GatedRelay.Proofs.Text.Cut
import GatedRelay.Proofs.Record.RoundTrip
import GatedRelay.Proofs.Recent
import GatedRelay.Proofs.Store.Records
import GatedRelay.Proofs.Store.Entries
import GatedRelay.Proofs.Store.Postings
import GatedRelay.Proofs.Pair.Books
import GatedRelay.Proofs.Signing.Check
import GatedRelay.Proofs.Pair.Operations
import GatedRelay.Proofs.Pair.Moves
import GatedRelay.Proofs.Pair.Turns
import GatedRelay.Proofs.Pair.Reach
import GatedRelay.Proofs.Pair.Trust
import GatedRelay.Proofs.Pair.Gating
import GatedRelay.Proofs.Frame.Header
import GatedRelay.Proofs.Frame.Checksum
import GatedRelay.Proofs.Frame.Reading
import GatedRelay.Proofs.Frame.Chunks
import GatedRelay.Proofs.Frame.Grammar
import GatedRelay.Proofs.Frame.Accounting
import GatedRelay.Proofs.Frame.Noise
import GatedRelay.Proofs.Frame.Resigning
import GatedRelay.Proofs.Frame.Encoding
import GatedRelay.Proofs.Frame.Requests
import GatedRelay.Proofs.Frame.StatusText
import GatedRelay.Proofs.Frame.Damage
import GatedRelay.Proofs.Frame.Layout
import GatedRelay.Proofs.Frame.Obtained
import GatedRelay.Proofs.Pair.Echo
import GatedRelay.Proofs.Pair.History
import GatedRelay.Proofs.Pair.Withholding
import GatedRelay.Proofs.Pair.Refusal
import GatedRelay.Proofs.Signing.Window
import GatedRelay.Proofs.Pair.Rotation
import GatedRelay.Proofs.Pair.Agreement
import GatedRelay.Proofs.Pair.Disclosure
import GatedRelay.Proofs.Pair.Progress
import GatedRelay.Proofs.Pair.Persistence
import GatedRelay.Proofs.Pair.Delivery
import GatedRelay.Proofs.Signing.Outgoing
import GatedRelay.Proofs.Slot.Register
import GatedRelay.Proofs.Slot.Registered
import GatedRelay.Proofs.Pair.Seats
import GatedRelay.Proofs.Pair.Handover
import GatedRelay.Proofs.Pair.ReplayClock
import GatedRelay.Proofs.Slot.Shares
import GatedRelay.Proofs.Pair.Settling
import GatedRelay.Proofs.Pair.Balance
import GatedRelay.Proofs.Store.Transactions
import GatedRelay.Proofs.Pair.Sending
import GatedRelay.Proofs.Pair.Isolation
import GatedRelay.Proofs.Pair.Tables
import GatedRelay.Proofs.Pair.Batches
import GatedRelay.Proofs.Relay.Streams
import GatedRelay.Proofs.Slot.Order
import GatedRelay.Proofs.Slot.Interleaving
import GatedRelay.Proofs.Pair.Leaving
import GatedRelay.Proofs.Pair.Order
import GatedRelay.Proofs.Signing.Hearing
import GatedRelay.Proofs.Store.Changes
import GatedRelay.Proofs.Store.Edits
import GatedRelay.Proofs.Tool.Files
import GatedRelay.Proofs.Tool.KeyTool
import GatedRelay.Proofs.Relay.Sockets
import GatedRelay.Proofs.Relay.Scans
import GatedRelay.Proofs.Relay.Pairs
import GatedRelay.Proofs.Store.Upgrade
import GatedRelay.Proofs.Store.Listing
import GatedRelay.Proofs.Pair.Notices
import GatedRelay.Proofs.Slot.Transports
import GatedRelay.Proofs.Pair.Transports
import GatedRelay.Proofs.Pair.Handshakes
