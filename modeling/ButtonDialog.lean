import ButtonDialog.Main
import ButtonDialog.Service.Program
import ButtonDialog.Transport.Recorder
import ButtonDialog.Proofs.Validation.Exactness
import ButtonDialog.Proofs.Keys
import ButtonDialog.Proofs.Compilation.Assembly
import ButtonDialog.Proofs.Compilation.Success
import ButtonDialog.Proofs.Compilation.Contents
import ButtonDialog.Proofs.Compilation.Validated
import ButtonDialog.Proofs.Compilation.Layouts
import ButtonDialog.Proofs.Payloads
import ButtonDialog.Proofs.Routing.Clicks
import ButtonDialog.Proofs.Routing.RoundTrip
import ButtonDialog.Proofs.Routing.Deeds
import ButtonDialog.Proofs.Routing.Foreign
import ButtonDialog.Proofs.Routing.Gating
import ButtonDialog.Proofs.Routing.Registration
import ButtonDialog.Proofs.Commands
import ButtonDialog.Proofs.Routing.Displays
import ButtonDialog.Proofs.Routing.Conversation
import ButtonDialog.Proofs.Compilation.Coherence
import ButtonDialog.Proofs.Compilation.Mirroring
import ButtonDialog.Proofs.Reading.Cleaning
import ButtonDialog.Proofs.Routing.Versions
import ButtonDialog.Proofs.Reading.Lexing
import ButtonDialog.Proofs.Reading.Acceptance
import ButtonDialog.Proofs.Reading.Cutting
import ButtonDialog.Proofs.Reading.Decorations
import ButtonDialog.Proofs.Serving.Lines
import ButtonDialog.Proofs.Serving.Journals
import ButtonDialog.Proofs.Serving.Folding
import ButtonDialog.Proofs.Serving.Chats
import ButtonDialog.Proofs.Serving.Likeness
import ButtonDialog.Proofs.Routing.Neighbours
import ButtonDialog.Proofs.Routing.LayoutLanguages
import ButtonDialog.Proofs.Routing.WireForm
import ButtonDialog.Proofs.Serving.Transports
import ButtonDialog.Proofs.Serving.Starting
import ButtonDialog.Proofs.Compilation.ButtonRows
import ButtonDialog.Proofs.Compilation.Refusals
import ButtonDialog.Proofs.Reading.Spellings
import ButtonDialog.Proofs.Reading.Faults
import ButtonDialog.Proofs.Reading.Stretches
import ButtonDialog.Proofs.Reading.Edits
import ButtonDialog.Proofs.Writing.Scalars
import ButtonDialog.Proofs.Writing.Values
import ButtonDialog.Proofs.Writing.Updates
import ButtonDialog.Proofs.Writing.Frames
import ButtonDialog.Proofs.Serving.Dialogs
import ButtonDialog.Proofs.Reading.Schema
import ButtonDialog.Proofs.Reading.Misshapen
import ButtonDialog.Proofs.Reading.Nulls
import ButtonDialog.Proofs.Serving.StartCommands
import ButtonDialog.Proofs.Serving.HandlerTables
import ButtonDialog.Proofs.Reading.Uncommenting
import ButtonDialog.Proofs.Reading.Loosening
import ButtonDialog.Proofs.Reading.Limits
import ButtonDialog.Proofs.Routing.Endings
import ButtonDialog.Proofs.Serving.Summaries
